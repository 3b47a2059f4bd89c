import RegionIR.Proofs.Context.Canonical
import RegionIR.Proofs.Context.Range

/-!
# Tables that are written once

A key that is bound stays bound to the same instance, whatever is called
afterwards and whether or not it succeeds.  Look-ups find that instance, makers
hand it out and nothing can be planted over it.

A maker checks its own arguments before it looks at the table: a type has to
have a width, and a payload has to fit the type that it is given with.  Who has
planted an attribute under a key whose payload does not fit can look it up, but
no maker gets as far as that key.

The makers of indices and texts may write both tables.  The maker of indices
may be refused in between, with its type bound and no attribute.

## Main results

* `Call.lookedUp?`, `Call.Passes` — what a maker looks up, and when it gets there.
* `Call.run_of_entry` — a maker that gets there hands out what is bound.
* `Call.run_of_not_passes` — a maker that does not is refused, or meets a width of zero.
* `Call.faultless` — no other fault is met, so no look-up goes by another key than the entry.
* `Run.insertOnce` — all this at any later moment of a run.
-/

namespace RegionIR.Context

open RegionIR.Action

/-! ## What a maker looks up -/

/-- The key that a maker looks up.  It is the content that is asked for, but for an index, whose
type is the one that stands under the kind of indices. -/
def Call.lookedUp? (c : Context) : Call → Option BoundKey
  | .indexAttribute value => some (.attr ⟨c.kindUnder .index, .int value⟩)
  | call => call.asked?

/-- The key that the caller brings an instance for. -/
def Call.planted? : Call → Option BoundKey
  | .addType k _ => some (.type k)
  | .addAttribute key _ => some (.attr key)
  | _ => none

/-- What a maker checks before it looks up its key. -/
def Call.Passes (c : Context) : Call → Prop
  | .typeOf k => checkWidth k = .ok ()
  | .attributeOf t p => t.kind.misfit p = .ok none
  | .integerAttribute t value => t.kind.isInteger = true ∧ t.kind.misfit (.int value) = .ok none
  | .floatAttribute t value => t.kind.isFloat = true ∧ t.kind.misfit (.float value) = .ok none
  | .indexAttribute value => (c.kindUnder .index).misfit (.int value) = .ok none
  | .stringAttribute _ => True
  | .addType _ _ => True
  | .addAttribute _ _ => True

/-! ## Single calls -/

section Makers

variable {ε : Type} {c : Context} {k : TypeKind} {t : Ty} {p : Payload} {a : Attribute}

theorem checkWidth_cases (k : TypeKind) :
    checkWidth k = .ok () ∨ ∃ sign, k = .integer 0 sign := by
  cases k with
  | integer width sign =>
      cases width with
      | zero => exact Or.inr ⟨sign, rfl⟩
      | succ _ => exact Or.inl rfl
  | index | float | nonNumeric => exact Or.inl rfl

theorem run_attributeOf_of_bound (hfits : t.kind.misfit p = .ok none)
    (ha : c.attributes.find? ⟨t.kind, p⟩ = some a) : (attributeOf t p).run c = .done a c :=
  (run_attributeOf hfits).trans (run_attributeAt_of_bound ha)

theorem run_attributeOf_of_misfit (hwidth : checkWidth t.kind = .ok ())
    (h : t.kind.misfit p ≠ .ok none) : ∃ e, (attributeOf t p).run c = .refused e c := by
  obtain ⟨m, hm⟩ := TypeKind.exists_misfit hwidth p
  cases m with
  | none => exact absurd hm h
  | some e =>
      refine ⟨e, ?_⟩
      rw [attributeOf, hm, run_bind_of_done _ (run_ofExcept_ok _ _)]
      rfl

theorem faultless_attributeAt {key : AttributeKey} :
    ((attributeAt key t p : Action Context ε Attribute).run c).Faultless := by
  cases hfind : c.attributes.find? key with
  | some a =>
      rw [run_attributeAt_of_bound hfind]
      trivial
  | none =>
      rw [run_attributeAt_of_free hfind]
      trivial

theorem faultless_attributeOf (hwidth : checkWidth t.kind = .ok ()) :
    ((attributeOf t p).run c).Faultless := by
  by_cases hfits : t.kind.misfit p = .ok none
  · rw [run_attributeOf hfits]
    exact faultless_attributeAt
  · obtain ⟨e, hrun⟩ := run_attributeOf_of_misfit (c := c) hwidth hfits
    rw [hrun]
    trivial

/-! ### After a test of the kind -/

theorem run_ofKind_of_bound {test : TypeKind → Bool} (hkind : test t.kind = true)
    (hfits : t.kind.misfit p = .ok none) (ha : c.attributes.find? ⟨t.kind, p⟩ = some a) :
    (do expectKind t test p; attributeOf t p : Action Context MisfitError Attribute).run c =
      .done a c := by
  rw [expectKind, if_pos hkind]
  exact run_attributeOf_of_bound hfits ha

theorem run_ofKind_of_misfit {test : TypeKind → Bool} (hwidth : checkWidth t.kind = .ok ())
    (h : ¬ (test t.kind = true ∧ t.kind.misfit p = .ok none)) :
    ∃ e, (do expectKind t test p; attributeOf t p : Action Context MisfitError Attribute).run c =
      .refused e c := by
  by_cases hkind : test t.kind = true
  · rw [expectKind, if_pos hkind]
    exact run_attributeOf_of_misfit hwidth fun hfits => h ⟨hkind, hfits⟩
  · rw [expectKind, if_neg hkind]
    exact ⟨_, rfl⟩

theorem faultless_ofKind {test : TypeKind → Bool} (hwidth : checkWidth t.kind = .ok ()) :
    ((do expectKind t test p; attributeOf t p : Action Context MisfitError Attribute).run
      c).Faultless := by
  by_cases hkind : test t.kind = true
  · rw [expectKind, if_pos hkind]
    exact faultless_attributeOf hwidth
  · rw [expectKind, if_neg hkind]
    trivial

/-! ### After a type has been made -/

/-- An index is made of the type that stands under the kind of indices. -/
theorem exists_run_indexAttribute (c : Context) (value : Word128) :
    ∃ t c', t.kind = c.kindUnder .index ∧ c'.attributes = c.attributes ∧
      (indexAttribute value).run c = (attributeOf t (.int value)).run c' := by
  obtain ⟨t, c', htype, hkind, hkept⟩ :=
    exists_run_typeOf_under (ε := MisfitError) (c := c) (k := .index) rfl
  exact ⟨t, c', hkind, hkept, run_bind_of_done _ htype⟩

theorem exists_run_stringAttribute (c : Context) (value : String) :
    ∃ t c', c'.attributes = c.attributes ∧ (stringAttribute value : Action Context ε _).run c =
      (attributeAt ⟨.nonNumeric, .str value⟩ t (.str value)).run c' := by
  obtain ⟨t, c', htype, -, hkept⟩ :=
    exists_run_typeOf_under (ε := ε) (c := c) (k := .nonNumeric) rfl
  exact ⟨t, c', hkept, run_bind_of_done _ htype⟩

end Makers

/-! ### Planting -/

section Planting

variable {c : Context} {k : TypeKind} {key : AttributeKey}

theorem run_addType_of_bound {old : Ty} (h : c.types.find? k = some old) (t : Ty) :
    (addType k t).run c =
      .refused (if old.equal t then .sameValue (.type k) else .differentValue (.type k)) c := by
  rw [addType, run_bind_of_done _ (run_get c), Pool.add, h]
  rfl

theorem run_addAttribute_of_bound {old : Attribute} (h : c.attributes.find? key = some old)
    (a : Attribute) :
    (addAttribute key a).run c =
      .refused (if old.equal a then .sameValue (.attr key) else .differentValue (.attr key)) c := by
  rw [addAttribute, run_bind_of_done _ (run_get c), Pool.add, h]
  rfl

theorem faultless_addType (t : Ty) : ((addType k t).run c).Faultless := by
  cases hfind : c.types.find? k with
  | some old =>
      rw [run_addType_of_bound hfind]
      trivial
  | none =>
      rw [addType, run_bind_of_done _ (run_get c), Pool.add, hfind]
      trivial

theorem faultless_addAttribute (a : Attribute) : ((addAttribute key a).run c).Faultless := by
  cases hfind : c.attributes.find? key with
  | some old =>
      rw [run_addAttribute_of_bound hfind]
      trivial
  | none =>
      rw [addAttribute, run_bind_of_done _ (run_get c), Pool.add, hfind]
      trivial

end Planting

/-! ## All calls -/

namespace Call

variable {call : Call} {c c' : Context} {key : BoundKey} {answer : Answer}

/-- A maker that has passed its check hands out what is bound to its key, and binds no attribute. -/
theorem run_of_entry (hentry : Entry c key answer) (hkey : call.lookedUp? c = some key)
    (hpasses : call.Passes c) :
    ∃ c', call.action.run c = .done answer c' ∧ c'.attributes = c.attributes := by
  cases call with
  | typeOf k =>
      cases hkey
      cases hentry with
      | type ht => exact ⟨c, run_bind_of_done _ (run_typeOf_of_bound hpasses ht), rfl⟩
  | attributeOf t p =>
      cases hkey
      cases hentry with
      | attr ha =>
          have hrun := run_attributeOf_of_bound hpasses ha
          exact ⟨c, run_bind_of_done _ (run_mapError_of_done _ hrun), rfl⟩
  | integerAttribute t value =>
      cases hkey
      cases hentry with
      | attr ha =>
          have hrun := run_ofKind_of_bound hpasses.1 hpasses.2 ha
          exact ⟨c, run_bind_of_done _ (run_mapError_of_done _ hrun), rfl⟩
  | floatAttribute t value =>
      cases hkey
      cases hentry with
      | attr ha =>
          have hrun := run_ofKind_of_bound hpasses.1 hpasses.2 ha
          exact ⟨c, run_bind_of_done _ (run_mapError_of_done _ hrun), rfl⟩
  | indexAttribute value =>
      cases hkey
      cases hentry with
      | @attr _ a ha =>
          obtain ⟨t, c₁, hkind, hkept, hindex⟩ := exists_run_indexAttribute c value
          have hfits : t.kind.misfit (.int value) = .ok none := hkind ▸ hpasses
          have hbound : c₁.attributes.find? ⟨t.kind, .int value⟩ = some a := by
            rw [hkept, hkind]
            exact ha
          have hrun := hindex.trans (run_attributeOf_of_bound hfits hbound)
          exact ⟨c₁, run_bind_of_done _ (run_mapError_of_done _ hrun), hkept⟩
  | stringAttribute value =>
      cases hkey
      cases hentry with
      | @attr _ a ha =>
          obtain ⟨t, c₁, hkept, hstring⟩ := exists_run_stringAttribute (ε := CallError) c value
          have hbound : c₁.attributes.find? ⟨.nonNumeric, .str value⟩ = some a := by
            rw [hkept]
            exact ha
          have hrun := hstring.trans (run_attributeAt_of_bound hbound)
          exact ⟨c₁, run_bind_of_done _ hrun, hkept⟩
  | addType | addAttribute => cases hkey

/-- Nothing is planted over an entry. -/
theorem run_of_planted (hentry : Entry c key answer) (hkey : call.planted? = some key) :
    ∃ e, call.action.run c = .refused (.duplicate e) c := by
  cases call with
  | addType k t =>
      cases hkey
      cases hentry with
      | type ht =>
          have hrun := run_addType_of_bound ht t
          exact ⟨_, run_bind_of_refused _ (run_mapError_of_refused _ hrun)⟩
  | addAttribute key a =>
      cases hkey
      cases hentry with
      | attr ha =>
          have hrun := run_addAttribute_of_bound ha a
          exact ⟨_, run_bind_of_refused _ (run_mapError_of_refused _ hrun)⟩
  | _ => cases hkey

/-- The types in the table and those that the caller brings have widths. -/
structure Wide (c : Context) (call : Call) : Prop where
  bound : ∀ {k t}, c.types.find? k = some t → checkWidth t.kind = .ok ()
  brought : ∀ t ∈ call.types, checkWidth t.kind = .ok ()

theorem Wide.index (h : call.Wide c) : checkWidth (c.kindUnder .index) = .ok () := by
  unfold kindUnder
  cases hfind : c.types.find? .index with
  | some t => exact h.bound hfind
  | none => rfl

/-- A maker that does not pass its check is refused, or it meets a width of zero. -/
theorem run_of_not_passes (hwide : call.Wide c) (h : ¬ call.Passes c) :
    (∃ e c', call.action.run c = .refused (.misfit e) c') ∨
      ∃ sign, call = .typeOf (.integer 0 sign) ∧ call.action.run c = .fault .zeroWidth := by
  cases call with
  | typeOf k =>
      obtain ⟨sign, rfl⟩ := (checkWidth_cases k).resolve_left h
      exact Or.inr ⟨sign, rfl, rfl⟩
  | attributeOf t p =>
      have hwidth := hwide.brought t (List.mem_singleton.2 rfl)
      obtain ⟨e, hrun⟩ := run_attributeOf_of_misfit (c := c) hwidth h
      exact Or.inl ⟨e, c, run_bind_of_refused _ (run_mapError_of_refused _ hrun)⟩
  | integerAttribute t value =>
      have hwidth := hwide.brought t (List.mem_singleton.2 rfl)
      obtain ⟨e, hrun⟩ := run_ofKind_of_misfit (c := c) hwidth h
      exact Or.inl ⟨e, c, run_bind_of_refused _ (run_mapError_of_refused _ hrun)⟩
  | floatAttribute t value =>
      have hwidth := hwide.brought t (List.mem_singleton.2 rfl)
      obtain ⟨e, hrun⟩ := run_ofKind_of_misfit (c := c) hwidth h
      exact Or.inl ⟨e, c, run_bind_of_refused _ (run_mapError_of_refused _ hrun)⟩
  | indexAttribute value =>
      obtain ⟨t, c₁, hkind, -, hindex⟩ := exists_run_indexAttribute c value
      have hmisfit : t.kind.misfit (.int value) ≠ .ok none := by
        rw [hkind]
        exact h
      obtain ⟨e, hrun⟩ := run_attributeOf_of_misfit (c := c₁) (hkind ▸ hwide.index) hmisfit
      rw [← hindex] at hrun
      exact Or.inl ⟨e, c₁, run_bind_of_refused _ (run_mapError_of_refused _ hrun)⟩
  | stringAttribute | addType | addAttribute => exact absurd trivial h

/-- Without a width of zero there is no fault. -/
theorem faultless (hwide : call.Wide c) (hzero : ∀ sign, call ≠ .typeOf (.integer 0 sign)) :
    (call.action.run c).Faultless := by
  cases call with
  | typeOf k =>
      have hwidth : checkWidth k = .ok () :=
        (checkWidth_cases k).resolve_right fun ⟨sign, hk⟩ => hzero sign (congrArg Call.typeOf hk)
      obtain ⟨t, c', hrun, -, -⟩ := exists_run_typeOf_under (ε := CallError) (c := c) hwidth
      rw [action, faultless_bind_pure, hrun]
      trivial
  | addType k t =>
      rw [action, faultless_bind_pure, faultless_mapError]
      exact faultless_addType t
  | attributeOf t p =>
      rw [action, faultless_bind_pure, faultless_mapError]
      exact faultless_attributeOf (hwide.brought t (List.mem_singleton.2 rfl))
  | integerAttribute t value =>
      rw [action, faultless_bind_pure, faultless_mapError]
      exact faultless_ofKind (hwide.brought t (List.mem_singleton.2 rfl))
  | floatAttribute t value =>
      rw [action, faultless_bind_pure, faultless_mapError]
      exact faultless_ofKind (hwide.brought t (List.mem_singleton.2 rfl))
  | indexAttribute value =>
      obtain ⟨t, c₁, hkind, -, hindex⟩ := exists_run_indexAttribute c value
      rw [action, faultless_bind_pure, faultless_mapError, hindex]
      exact faultless_attributeOf (hkind ▸ hwide.index)
  | stringAttribute value =>
      obtain ⟨t, c₁, -, hstring⟩ := exists_run_stringAttribute (ε := CallError) c value
      rw [action, faultless_bind_pure, hstring]
      exact faultless_attributeAt
  | addAttribute key a =>
      rw [action, faultless_bind_pure, faultless_mapError]
      exact faultless_addAttribute a

end Call

/-! ## The guarantee -/

variable {V : Type} {past past' : Past} {s s' : Session V} {call : Call}

/-- In a run all types have widths, wherever they are. -/
theorem Traced.wide (h : Traced past s) (hheld : call.Held s) (i : Nat) :
    call.Wide (s.contexts i) where
  bound ht := h.positive ⟨i, _, ht⟩
  brought t ht := h.positive (h.typeBound (hheld.hasType t ht))

/-- What a later session makes of the keys that were bound in an earlier one. -/
structure InsertOnce (s s' : Session V) : Prop where
  /-- A look-up finds what was bound. -/
  bound : ∀ {i : Nat} {key : BoundKey} {answer : Answer}, Entry (s.contexts i) key answer →
    Entry (s'.contexts i) key answer
  /-- A maker that has passed its check hands it out. -/
  made : ∀ {i : Nat} {call : Call} {key : BoundKey} {answer : Answer},
    Entry (s.contexts i) key answer → call.lookedUp? (s'.contexts i) = some key →
      call.Passes (s'.contexts i) →
        ∃ s'', (Session.onContext i call.action).run s' = .done answer s'' ∧
          ∀ j, (s''.contexts j).attributes = (s'.contexts j).attributes
  /-- One that has not passed hands out nothing. -/
  unmade : ∀ {i : Nat} {call : Call}, call.Held s' → ¬ call.Passes (s'.contexts i) →
    (∃ e s'', (Session.onContext i call.action).run s' = .refused (.misfit e) s'') ∨
      ∃ sign, call = .typeOf (.integer 0 sign) ∧
        (Session.onContext i call.action).run s' = .fault .zeroWidth
  /-- Nothing is planted over an entry, and the attempt changes nothing. -/
  planted : ∀ {i : Nat} {call : Call} {key : BoundKey} {answer : Answer},
    Entry (s.contexts i) key answer → call.planted? = some key →
      ∃ e, (Session.onContext i call.action).run s' = .refused (.duplicate e) s'
  /-- A refusal leaves the attributes of all contexts as they are. -/
  refused : ∀ {i : Nat} {call : Call} {e s''},
    (Session.onContext i call.action).run s' = .refused e s'' →
      ∀ j, (s''.contexts j).attributes = (s'.contexts j).attributes
  /-- The only fault is the one that a width of zero makes. -/
  fault : ∀ {i : Nat} {call : Call} {cause}, call.Held s' →
    (Session.onContext i call.action).run s' = .fault cause →
      cause = .zeroWidth ∧ ∃ sign, call = .typeOf (.integer 0 sign)

/-- Attributes that a context keeps are kept by the session. -/
theorem attributes_withContext {i : Nat} {c : Context}
    (h : c.attributes = (s.contexts i).attributes) (j : Nat) :
    ((s.withContext i c).contexts j).attributes = (s.contexts j).attributes := by
  rcases s.contexts_withContext_cases i j c with hj | ⟨rfl, hj⟩
  · rw [hj]
  · rw [hj, h]

/-- At any later moment of a run all tables are as written before, and makers hand out what they
find there. -/
theorem Run.insertOnce (h : Run past s) (honward : Onward past s past' s') : InsertOnce s s' where
  bound hentry := honward.kept.entry hentry
  made := by
    intro i call key answer hentry hkey hpasses
    obtain ⟨c', hrun, hkept⟩ := Call.run_of_entry (honward.kept.entry hentry) hkey hpasses
    exact ⟨_, Session.run_onContext_of_done rfl hrun, attributes_withContext hkept⟩
  unmade := by
    intro i call hheld hfails
    have hwide := (h.onward honward).traced.wide hheld i
    rcases Call.run_of_not_passes hwide hfails with ⟨e, c', hrun⟩ | ⟨sign, hcall, hrun⟩
    · exact Or.inl ⟨e, _, Session.run_onContext_of_refused rfl hrun⟩
    · exact Or.inr ⟨sign, hcall, Session.run_onContext_of_fault hrun⟩
  planted := by
    intro i call key answer hentry hkey
    obtain ⟨e, hrun⟩ := Call.run_of_planted (honward.kept.entry hentry) hkey
    have hrefused := Session.run_onContext_of_refused rfl hrun
    rw [Session.withContext_contexts] at hrefused
    exact ⟨e, hrefused⟩
  refused := by
    intro i call e s'' hrun
    have hends : ((Session.onContext i call.action).run s').Ends (fun _ _ => True)
        fun _ s'' => ∀ j, (s''.contexts j).attributes = (s'.contexts j).attributes := by
      rw [Session.ends_onContext]
      exact (Call.ends_action call (s'.contexts i)).mono (fun _ _ _ => trivial)
        fun _ c' hc' => attributes_withContext hc'.2
    rw [hrun] at hends
    exact hends
  fault := by
    intro i call cause hheld hrun
    have hwide := (h.onward honward).traced.wide hheld i
    by_cases hzero : ∃ sign, call = .typeOf (.integer 0 sign)
    · obtain ⟨sign, rfl⟩ := hzero
      have hfault : (Session.onContext i (Call.typeOf (.integer 0 sign)).action).run s' =
          .fault .zeroWidth := Session.run_onContext_of_fault rfl
      rw [hfault] at hrun
      cases hrun
      exact ⟨rfl, sign, rfl⟩
    · have hfaultless := Call.faultless hwide fun sign hcall => hzero ⟨sign, hcall⟩
      rw [← Session.faultless_onContext] at hfaultless
      exact absurd hrun (hfaultless.never_fault cause)

/-! ## An attribute under a key that no payload of its type has -/

/-- The type of signless bytes. -/
def byteType : Ty := ⟨⟨0, 0⟩, .integer 8 .signless⟩

def five : Attribute := ⟨⟨0, 1⟩, byteType, .int 5⟩

/-- A number that is too great for a byte. -/
def beyondByte : AttributeKey := ⟨byteType.kind, .int 1000⟩

def withByte : Context := ({} : Context).advanced.withType byteType.kind byteType

def withFive : Context := withByte.advanced.withAttribute five.key five

/-- A session where the five has been planted under that number. -/
def plantedFive : Session DialectVerifier :=
  ({} : Session DialectVerifier).withContext 0 (withFive.withAttribute beyondByte five)

def plantFive : Past :=
  [(0, .addAttribute beyondByte five), (0, .integerAttribute byteType 5),
    (0, .typeOf byteType.kind)]

theorem run_plantedFive : Run plantFive plantedFive := by
  have hmake : (Call.typeOf byteType.kind).action.run {} = .done (.type byteType) withByte := by
    decide +kernel
  have hfive : (Call.integerAttribute byteType 5).action.run withByte =
      .done (.attribute five) withFive := by decide +kernel
  have hplant : (Call.addAttribute beyondByte five).action.run withFive =
      .done .added (withFive.withAttribute beyondByte five) := by decide +kernel
  have hrun := Run.start.done (Call.held_of_nil rfl rfl)
    (Session.run_onContext_of_done (s := ({} : Session DialectVerifier)) (i := 0) rfl hmake)
  have hrun₁ := hrun.done (Call.held_of_type ⟨0, byteType.kind, rfl⟩ rfl rfl)
    (Session.run_onContext_of_done (Session.contexts_withContext_self _ _) hfive)
  have hrun₂ := hrun₁.done (Call.held_of_attribute ⟨0, five.key, rfl⟩ rfl rfl)
    (Session.run_onContext_of_done (Session.contexts_withContext_self _ _) hplant)
  rw [Session.withContext_withContext, Session.withContext_withContext] at hrun₂
  exact hrun₂

theorem misfit_beyondByte : byteType.kind.misfit (.int 1000) =
    .ok (some (.range byteType.kind 1000 (-128) 255)) := rfl

/-- The five is handed out under its own key, and under the other one it can only be looked up. -/
theorem Run.insertOnce_plantedFive : Run plantFive plantedFive ∧
    (∃ s', (Session.onContext 0 (Call.integerAttribute byteType 5).action).run plantedFive =
      .done (.attribute five) s') ∧
    (∃ e s', (Session.onContext 0 (Call.integerAttribute byteType 1000).action).run plantedFive =
      .refused (.misfit e) s') ∧
    ∃ e, (Session.onContext 0 (Call.addAttribute beyondByte five).action).run plantedFive =
      .refused (.duplicate e) plantedFive := by
  have hfive : Entry (plantedFive.contexts 0) (.attr five.key) (.attribute five) := .attr rfl
  have hbeyond : Entry (plantedFive.contexts 0) (.attr beyondByte) (.attribute five) := .attr rfl
  have hheld : (Call.integerAttribute byteType 1000).Held plantedFive :=
    Call.held_of_type ⟨0, byteType.kind, rfl⟩ rfl rfl
  have hfits : (Call.integerAttribute byteType 5).Passes (plantedFive.contexts 0) := ⟨rfl, rfl⟩
  have hmisfit : ¬ (Call.integerAttribute byteType 1000).Passes (plantedFive.contexts 0) :=
    fun h => nomatch misfit_beyondByte.symm.trans h.2
  have honce := Run.insertOnce run_plantedFive .here
  obtain ⟨s', hmade, -⟩ := honce.made hfive rfl hfits
  refine ⟨run_plantedFive, ⟨s', hmade⟩, ?_, honce.planted hbeyond rfl⟩
  refine (honce.unmade hheld hmisfit).resolve_right ?_
  rintro ⟨sign, hcall, -⟩
  cases hcall

/-- A maker need not hand out what is bound to its key. -/
theorem planted_misfit_refused : ¬ ∀ (past past' : Past) (s s' : Session DialectVerifier) (i : Nat)
    (call : Call) (key : BoundKey) (answer : Answer), Run past s → Onward past s past' s' →
      call.Held s' → Entry (s.contexts i) key answer →
        call.lookedUp? (s'.contexts i) = some key →
          ∃ s'', (Session.onContext i call.action).run s' = .done answer s'' := by
  intro hall
  have hheld : (Call.integerAttribute byteType 1000).Held plantedFive :=
    Call.held_of_type ⟨0, byteType.kind, rfl⟩ rfl rfl
  have hbeyond : Entry (plantedFive.contexts 0) (.attr beyondByte) (.attribute five) := .attr rfl
  obtain ⟨s', hrun⟩ := hall _ _ _ _ _ _ _ _ run_plantedFive .here hheld hbeyond rfl
  have hends : ((Session.onContext 0 (Call.integerAttribute byteType 1000).action).run
      plantedFive).Ends (fun _ _ => False) fun _ _ => True := trivial
  rw [hrun] at hends
  exact hends

end RegionIR.Context
