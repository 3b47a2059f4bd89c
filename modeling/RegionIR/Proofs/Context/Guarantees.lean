import RegionIR.Dialect
import RegionIR.Proofs.Context.Runs

/-!
# What the tables of a context promise

An entry has the content of its key unless the caller has planted it there.
Types are looked up by their kinds alone, so a type that was planted under a
kind of others is what everybody gets from then on who asks for that kind.

Planted attributes do no further harm: each of them was made before, and its
payload was checked then.  A planted type does.  Texts are made of the type
that stands under their kind, and that is the one place where a payload is not
checked against its type.

## Main results

* `Run.entriesMatch` — entries and answers have the content that was asked for,
  but for what was planted.
* `planted_index_answers` — the type of indices may turn out to be a word.
* `Run.attribute_fits` — attributes fit their types, but for texts of a planted
  type.
* `planted_text_misfits` — a text whose type is a word.
-/

namespace RegionIR.Context

variable {V : Type} {past : Past} {s s' : Session V} {call : Call} {i j : Nat} {k : TypeKind}
  {a : Attribute}

/-! ## Entries and their keys -/

/-- Entries have the content of their keys, and answers are what was asked for, but for what the
caller has planted. -/
structure EntriesMatch (past : Past) (s : Session V) : Prop where
  type_kind : ∀ {i k t}, (s.contexts i).types.find? k = some t →
    t.kind = k ∨ (i, .addType k t) ∈ past
  attribute_key : ∀ {i key a}, (s.contexts i).attributes.find? key = some a →
    a.key = key ∨ (i, .addAttribute key a) ∈ past ∨ TextUnder past i key a
  /-- Who asks for a type of positive width gets one. -/
  typeOf_done : ∀ i {k}, checkWidth k = .ok () →
    ∃ t s', (Session.onContext i (Call.typeOf k).action).run s = .done (.type t) s'
  typeOf_kind : ∀ {i k t s'},
    (Session.onContext i (Call.typeOf k).action).run s = .done (.type t) s' →
      t.kind = k ∨ (i, .addType k t) ∈ past
  /-- One instance does not stand under two kinds. -/
  typeOf_inj : ∀ {i k k' t t' s'},
    (Session.onContext i (Call.typeOf k).action).run s = .done (.type t) s' →
      (s'.contexts i).types.find? k' = some t' → t.sameInstance t' = true →
        k = k' ∨ (i, .addType k t) ∈ past ∨ (i, .addType k' t') ∈ past
  /-- Who asks for an attribute whose payload fits gets one. -/
  attributeOf_done : ∀ i {t p}, t.kind.misfit p = .ok none →
    ∃ a s', (Session.onContext i (Call.attributeOf t p).action).run s = .done (.attribute a) s'
  attributeOf_key : ∀ {i t p a s'}, (Call.attributeOf t p).Held s →
    (Session.onContext i (Call.attributeOf t p).action).run s = .done (.attribute a) s' →
      a.key = ⟨t.kind, p⟩ ∨ (i, .addAttribute ⟨t.kind, p⟩ a) ∈ past ∨
        TextUnder past i ⟨t.kind, p⟩ a

/-- A call that is not the latest one was made before. -/
theorem mem_past_of_ne {call' : Call} (hne : call' ≠ call)
    (h : (j, call') ∈ (i, call) :: past) : (j, call') ∈ past := by
  rcases List.mem_cons.1 h with heq | hmem
  · exact absurd (Prod.mk.inj heq).2 hne
  · exact hmem

/-- All tables of a run have entries that match their keys, but for what was planted. -/
theorem Run.entriesMatch (h : Run past s) : EntriesMatch past s where
  type_kind := h.traced.type_kind
  attribute_key := h.traced.attribute_key
  typeOf_done := by
    intro i k hwidth
    obtain ⟨t, c', hrun⟩ := exists_run_typeOf (s.contexts i) hwidth
    exact ⟨t, _, Session.run_onContext_of_done rfl hrun⟩
  typeOf_kind := by
    intro i k t s' hrun
    have hheld : (Call.typeOf k).Held s := Call.held_of_nil rfl rfl
    have hbound : (s'.contexts i).types.find? k = some t := h.answered hheld hrun
    exact ((h.done hheld hrun).traced.type_kind hbound).imp_right
      (mem_past_of_ne Call.noConfusion)
  typeOf_inj := by
    intro i k k' t t' s' hrun hbound' hsame
    have hheld : (Call.typeOf k).Held s := Call.held_of_nil rfl rfl
    have hbound : (s'.contexts i).types.find? k = some t := h.answered hheld hrun
    have htraced := (h.done hheld hrun).traced
    have hstamp : t.stamp = t'.stamp := eq_of_beq hsame
    obtain rfl : t = t' := htraced.stamp_inj ⟨i, k, hbound⟩ ⟨i, k', hbound'⟩ hstamp
    rcases htraced.type_kind hbound with hkind | hplanted
    · rcases htraced.type_kind hbound' with hkind' | hplanted'
      · exact Or.inl (hkind.symm.trans hkind')
      · exact Or.inr (Or.inr (mem_past_of_ne Call.noConfusion hplanted'))
    · exact Or.inr (Or.inl (mem_past_of_ne Call.noConfusion hplanted))
  attributeOf_done := by
    intro i t p hfits
    obtain ⟨a, c', hrun⟩ := exists_run_attributeOf (s.contexts i) hfits
    exact ⟨a, _, Session.run_onContext_of_done rfl hrun⟩
  attributeOf_key := by
    intro i t p a s' hheld hrun
    have hbound : (s'.contexts i).attributes.find? ⟨t.kind, p⟩ = some a := h.answered hheld hrun
    have htraced := (h.done hheld hrun).traced
    refine (htraced.attribute_key hbound).imp_right (Or.imp ?_ fun htext => ?_)
    · exact mem_past_of_ne Call.noConfusion
    · exact ⟨htext.key_eq, htext.payload_eq, mem_past_of_ne Call.noConfusion htext.planted⟩

/-! ## A planted type -/

/-- The type of signless words of 32 bits. -/
def wordType : Ty := ⟨⟨0, 0⟩, .integer 32 .signless⟩

/-- A context that has made the type of words. -/
def withWord : Context := ({} : Context).advanced.withType wordType.kind wordType

/-- Calls that make the type of words and plant it under a kind. -/
def plantWord (k : TypeKind) : Past := [(0, .addType k wordType), (0, .typeOf wordType.kind)]

/-- A session where the type of words has been planted under a kind. -/
def plantedWord (k : TypeKind) : Session DialectVerifier :=
  ({} : Session DialectVerifier).withContext 0 (withWord.withType k wordType)

theorem run_plantedWord
    (hplant : (Call.addType k wordType).action.run withWord =
      .done .added (withWord.withType k wordType)) : Run (plantWord k) (plantedWord k) := by
  have hmake : (Call.typeOf wordType.kind).action.run {} = .done (.type wordType) withWord := by
    decide +kernel
  have hword : Run [(0, .typeOf wordType.kind)]
      (({} : Session DialectVerifier).withContext 0 withWord) :=
    Run.start.done (Call.held_of_nil rfl rfl) (Session.run_onContext_of_done rfl hmake)
  have hheld : (Call.addType k wordType).Held
      (({} : Session DialectVerifier).withContext 0 withWord) :=
    Call.held_of_type ⟨0, wordType.kind, by decide +kernel⟩ rfl rfl
  have hrun := hword.done hheld
    (Session.run_onContext_of_done (Session.contexts_withContext_self _ _) hplant)
  rw [Session.withContext_withContext] at hrun
  exact hrun

/-- The planted type is what a caller gets who asks for the kind. -/
theorem run_typeOf_plantedWord
    (hget : (Call.typeOf k).action.run (withWord.withType k wordType) =
      .done (.type wordType) (withWord.withType k wordType)) :
    (Session.onContext 0 (Call.typeOf k).action).run (plantedWord k) =
      .done (.type wordType) (plantedWord k) := by
  have hrun := Session.run_onContext_of_done (s := plantedWord k)
    (Session.contexts_withContext_self _ _) hget
  rw [plantedWord, Session.withContext_withContext] at hrun
  exact hrun

/-- A word under the kind of indices has been planted there. -/
theorem Run.entriesMatch_planted : Run (plantWord .index) (plantedWord .index) ∧
    wordType.kind ≠ .index ∧ (0, .addType .index wordType) ∈ plantWord .index := by
  have hreach := run_plantedWord (k := .index) (by decide +kernel)
  have hget := run_typeOf_plantedWord (k := .index) (by decide +kernel)
  have hne : wordType.kind ≠ .index := by decide
  exact ⟨hreach, hne, (hreach.entriesMatch.typeOf_kind hget).resolve_left hne⟩

/-- The type that was planted is a type of another kind. -/
theorem planted_index_answers : ¬ ∀ (past : Past) (s s' : Session DialectVerifier) (i : Nat)
    (k : TypeKind) (t : Ty), Run past s →
      (Session.onContext i (Call.typeOf k).action).run s = .done (.type t) s' → t.kind = k := by
  intro hall
  have hreach := run_plantedWord (k := .index) (by decide +kernel)
  have hget := run_typeOf_plantedWord (k := .index) (by decide +kernel)
  exact absurd (hall _ _ _ _ _ _ hreach hget) (by decide)

/-! ## Attributes and their types -/

/-- A text fits no type of another kind. -/
theorem misfit_text (hk : k ≠ .nonNumeric) (value : String) :
    k.misfit (.str value) = .ok (some (.shape k .text)) := by
  cases k with
  | nonNumeric => exact absurd rfl hk
  | integer => rfl
  | index => rfl
  | float => rfl

/-- Whatever attribute a call hands out fits its type, or it is a text that was made of a planted
type, and then it is the shape that does not fit. -/
theorem Run.attribute_fits (h : Run past s) (hheld : call.Held s)
    (hrun : (Session.onContext i call.action).run s = .done (.attribute a) s') :
    a.ty.kind.misfit a.payload = .ok none ∨
      (a.ty.kind.misfit a.payload = .ok (some (.shape a.ty.kind .text)) ∧
        TextOfPlanted past a) := by
  have hanswered := h.answered hheld hrun
  have hcall : ∀ k t, .addType k t ≠ call := by
    rintro k t rfl
    exact hanswered.elim
  obtain ⟨key, hbound⟩ := hanswered.attribute_bound
  rcases (h.done hheld hrun).traced.fits ⟨i, key, hbound⟩ with hfits | htext
  · exact Or.inl hfits
  · obtain ⟨value, hvalue⟩ := htext.payload_eq
    by_cases hk : a.ty.kind = .nonNumeric
    · refine Or.inl ?_
      rw [hk, hvalue]
      rfl
    · refine Or.inr ⟨?_, htext.payload_eq, ?_⟩
      · rw [hvalue]
        exact misfit_text hk value
      · exact htext.planted.imp fun _ => mem_past_of_ne (hcall _ _)

/-- A text that was made where the type of words stands under the kind of texts. -/
def wordText : Attribute := ⟨⟨0, 1⟩, wordType, .str "x"⟩

/-- The context that has made it. -/
def withWordText : Context :=
  (withWord.withType .nonNumeric wordType).advanced.withAttribute ⟨.nonNumeric, .str "x"⟩ wordText

theorem run_stringAttribute_plantedWord :
    (Session.onContext 0 (Call.stringAttribute "x").action).run (plantedWord .nonNumeric) =
      .done (.attribute wordText) ((plantedWord .nonNumeric).withContext 0 withWordText) :=
  Session.run_onContext_of_done (Session.contexts_withContext_self _ _) (by decide +kernel)

theorem misfit_wordText : wordText.ty.kind.misfit wordText.payload ≠ .ok none := by
  intro hfits
  cases (misfit_text (k := wordType.kind) (by decide) "x").symm.trans hfits

/-- The text is refused by its own type. -/
theorem Run.attribute_fits_wordText : Run (plantWord .nonNumeric) (plantedWord .nonNumeric) ∧
    wordText.ty.kind.misfit wordText.payload = .ok (some (.shape wordType.kind .text)) ∧
      TextOfPlanted (plantWord .nonNumeric) wordText := by
  have hreach := run_plantedWord (k := .nonNumeric) (by decide +kernel)
  have hfits := hreach.attribute_fits (Call.held_of_nil rfl rfl) run_stringAttribute_plantedWord
  exact ⟨hreach, hfits.resolve_left misfit_wordText⟩

/-- A text that is handed out need not fit its type. -/
theorem planted_text_misfits : ¬ ∀ (past : Past) (s s' : Session DialectVerifier) (i : Nat)
    (call : Call) (a : Attribute), Run past s → call.Held s →
      (Session.onContext i call.action).run s = .done (.attribute a) s' →
        a.ty.kind.misfit a.payload = .ok none := by
  intro hall
  have hreach := run_plantedWord (k := .nonNumeric) (by decide +kernel)
  exact misfit_wordText (hall _ _ _ _ _ _ hreach (Call.held_of_nil rfl rfl)
    run_stringAttribute_plantedWord)

end RegionIR.Context
