import RegionIR.Dialect
import RegionIR.Proofs.Context.Runs

/-!
# One instance for each content

A caller who plants nothing under a foreign key can tell instances apart by
their contents: what is handed out has the content that was asked for, and two
answers are one instance iff their contents are equal.  Floats are compared by
their bits here, so the two zeros are two contents and a NaN is one, and where
the type that the caller brings has been made does not matter.

Both directions need the whole run.  A bound instance stays, so equal contents
lead to it whenever they are asked for; and no stamp is given twice, so a
second instance can not pass for the first.

## Main results

* `Call.asked?`, `Answer.content?` — what a call asks for, and what it gets.
* `Traced.sameInstance_iff` — bound instances are told apart by their stamps.
* `Run.canonical`
-/

namespace RegionIR.Context

variable {V : Type} {past past' : Past} {s s' : Session V} {call call' : Call} {c : Context}
  {i : Nat} {key key' : BoundKey} {answer answer' : Answer}

/-! ## Contents -/

/-- The content that a maker is asked for. -/
def Call.asked? : Call → Option BoundKey
  | .typeOf k => some (.type k)
  | .attributeOf t p => some (.attr ⟨t.kind, p⟩)
  | .integerAttribute t value => some (.attr ⟨t.kind, .int value⟩)
  | .floatAttribute t value => some (.attr ⟨t.kind, .float value⟩)
  | .indexAttribute value => some (.attr ⟨.index, .int value⟩)
  | .stringAttribute value => some (.attr ⟨.nonNumeric, .str value⟩)
  | .addType _ _ => none
  | .addAttribute _ _ => none

/-- The content of what is handed out. -/
def Answer.content? : Answer → Option BoundKey
  | .added => none
  | .type t => some (.type t.kind)
  | .attribute a => some (.attr a.key)

def Answer.sameInstance : Answer → Answer → Bool
  | .type t, .type t' => t.sameInstance t'
  | .attribute a, .attribute a' => a.sameInstance a'
  | _, _ => false

/-- Whatever was planted in the context has the content of its key. -/
structure Faithful (i : Nat) (past : Past) : Prop where
  type_kind : ∀ {k t}, (i, .addType k t) ∈ past → t.kind = k
  attribute_key : ∀ {key a}, (i, .addAttribute key a) ∈ past → a.key = key

/-- A maker plants nothing. -/
theorem Faithful.cons (h : Faithful i past) (hkey : call.asked? = some key) :
    Faithful i ((i, call) :: past) where
  type_kind hmem := by
    rcases List.mem_cons.1 hmem with heq | hpast
    · cases heq
      cases hkey
    · exact h.type_kind hpast
  attribute_key hmem := by
    rcases List.mem_cons.1 hmem with heq | hpast
    · cases heq
      cases hkey
    · exact h.attribute_key hpast

/-! ## Entries -/

/-- The instance is bound to the key. -/
inductive Entry (c : Context) : BoundKey → Answer → Prop where
  | type {k : TypeKind} {t : Ty} (h : c.types.find? k = some t) : Entry c (.type k) (.type t)
  | attr {key : AttributeKey} {a : Attribute} (h : c.attributes.find? key = some a) :
      Entry c (.attr key) (.attribute a)

theorem Entry.unique (h : Entry c key answer) (h' : Entry c key answer') : answer = answer' := by
  cases h with
  | type h =>
      cases h' with
      | type h' => exact congrArg Answer.type (Option.some.inj (h.symm.trans h'))
  | attr h =>
      cases h' with
      | attr h' => exact congrArg Answer.attribute (Option.some.inj (h.symm.trans h'))

theorem Kept.entry (hkept : Kept s s') (h : Entry (s.contexts i) key answer) :
    Entry (s'.contexts i) key answer := by
  cases h with
  | type h => exact .type (hkept.types h)
  | attr h => exact .attr (hkept.attributes h)

/-- A maker hands out the entry of what it is asked for.  An index is looked up under the type
that stands under the kind of indices. -/
theorem Call.Answered.entry (h : call.Answered c answer) (hkey : call.asked? = some key)
    (hindex : ∀ t, c.types.find? .index = some t → t.kind = .index) : Entry c key answer := by
  cases answer with
  | added =>
      cases call with
      | addType | addAttribute => cases hkey
      | _ => exact h.elim
  | type t =>
      cases call with
      | typeOf k =>
          cases hkey
          exact .type h
      | _ => exact h.elim
  | _ a =>
      cases call with
      | typeOf | addType | addAttribute => exact h.elim
      | indexAttribute value =>
          cases hkey
          obtain ⟨t, ht, ha⟩ := h
          rw [hindex t ht] at ha
          exact .attr ha
      | _ =>
          cases hkey
          exact .attr h

/-! ## Contents and stamps -/

/-- Entries have the content of their keys if nothing else was planted. -/
theorem Traced.content (h : Traced past s) (hfaithful : Faithful i past)
    (hentry : Entry (s.contexts i) key answer) : answer.content? = some key := by
  cases hentry with
  | @type k t ht =>
      have hkind : t.kind = k := (h.type_kind ht).elim id hfaithful.type_kind
      exact congrArg (fun k => some (BoundKey.type k)) hkind
  | @attr key a ha =>
      have hkey : a.key = key := by
        rcases h.attribute_key ha with hkey | hplanted | htext
        · exact hkey
        · exact hfaithful.attribute_key hplanted
        · obtain ⟨value, rfl⟩ := htext.key_eq
          have hkind := hfaithful.type_kind htext.planted
          rw [Attribute.key, hkind, htext.payload_eq]
      exact congrArg (fun key => some (BoundKey.attr key)) hkey

/-- Two entries are one instance only if they are equal. -/
theorem Traced.sameInstance_iff (h : Traced past s) (hentry : Entry (s.contexts i) key answer)
    (hentry' : Entry (s.contexts i) key' answer') :
    answer.sameInstance answer' = true ↔ answer = answer' := by
  cases hentry with
  | @type k t ht =>
      cases hentry' with
      | @type k' t' ht' =>
          constructor
          · intro hsame
            exact congrArg Answer.type (h.types.inj ⟨i, k, ht⟩ ⟨i, k', ht'⟩ (eq_of_beq hsame))
          · intro heq
            cases heq
            exact beq_self_eq_true t.stamp
      | attr _ => exact iff_of_false Bool.false_ne_true Answer.noConfusion
  | @attr key a ha =>
      cases hentry' with
      | @attr key' a' ha' =>
          constructor
          · intro hsame
            exact congrArg Answer.attribute
              (h.attributes.inj ⟨i, key, ha⟩ ⟨i, key', ha'⟩ (eq_of_beq hsame))
          · intro heq
            cases heq
            exact beq_self_eq_true a.stamp
      | type _ => exact iff_of_false Bool.false_ne_true Answer.noConfusion

/-! ## The guarantee -/

/-- Makers hand out what they are asked for, and two answers at any two moments are one instance
iff they were asked for one content. -/
theorem Run.canonical {s₁ s₂ s₃ : Session V} (h : Run past s) (hheld : call.Held s)
    (hrun : (Session.onContext i call.action).run s = .done answer s₁)
    (honward : Onward ((i, call) :: past) s₁ past' s₂) (hheld' : call'.Held s₂)
    (hrun' : (Session.onContext i call'.action).run s₂ = .done answer' s₃)
    (hfaithful : Faithful i past') (hkey : call.asked? = some key)
    (hkey' : call'.asked? = some key') :
    answer.content? = some key ∧ answer'.content? = some key' ∧
      (answer.sameInstance answer' = true ↔ key = key') := by
  have hrun₁ := h.done hheld hrun
  have hrun₂ := hrun₁.onward honward
  have htraced := (hrun₂.done hheld' hrun').traced
  have hplanted := hfaithful.cons hkey'
  have hkept : Kept s₁ s₃ := honward.kept.trans (.of_done hrun')
  have hindex : ∀ t, (s₃.contexts i).types.find? .index = some t → t.kind = .index :=
    fun t ht => (htraced.type_kind ht).elim id hplanted.type_kind
  -- Both answers are entries at the end, where they can be compared.
  have hentry : Entry (s₃.contexts i) key answer :=
    hkept.entry ((h.answered hheld hrun).entry hkey fun t ht => hindex t (hkept.types ht))
  have hentry' : Entry (s₃.contexts i) key' answer' :=
    (hrun₂.answered hheld' hrun').entry hkey' hindex
  have hcontent := htraced.content hplanted hentry
  have hcontent' := htraced.content hplanted hentry'
  refine ⟨hcontent, hcontent', ?_⟩
  rw [htraced.sameInstance_iff hentry hentry']
  constructor
  · intro heq
    rw [heq] at hcontent
    exact Option.some.inj (hcontent.symm.trans hcontent')
  · intro heq
    rw [heq] at hentry
    exact hentry.unique hentry'

/-! ## The two zeros -/

/-- The type of doubles, in a context that has made nothing before. -/
def doubleType (i : Nat) : Ty := ⟨⟨i, 0⟩, .float .f64⟩

def withDouble (i : Nat) : Context :=
  ({ name := i } : Context).advanced.withType (.float .f64) (doubleType i)

/-- Two contexts have made the type of doubles. -/
def doubles : Session DialectVerifier :=
  (({} : Session DialectVerifier).withContext 1 (withDouble 1)).withContext 0 (withDouble 0)

def makeDoubles : Past := [(0, .typeOf (.float .f64)), (1, .typeOf (.float .f64))]

theorem run_doubles : Run makeDoubles doubles := by
  have hmake : ∀ i, (Call.typeOf (.float .f64)).action.run { name := i } =
      .done (.type (doubleType i)) (withDouble i) := fun _ => rfl
  have hfirst : Run [(1, .typeOf (.float .f64))]
      (({} : Session DialectVerifier).withContext 1 (withDouble 1)) :=
    Run.start.done (Call.held_of_nil rfl rfl) (Session.run_onContext_of_done rfl (hmake 1))
  exact hfirst.done (Call.held_of_nil rfl rfl) (Session.run_onContext_of_done rfl (hmake 0))

/-- A zero of the first context, whose type is that of the second one. -/
def plusZero : Attribute := ⟨⟨0, 1⟩, doubleType 1, .float ⟨0⟩⟩

def minusZero : Attribute := ⟨⟨0, 2⟩, doubleType 0, .float ⟨0x8000000000000000⟩⟩

def withPlusZero : Context := (withDouble 0).advanced.withAttribute plusZero.key plusZero

def withZeros : Context := withPlusZero.advanced.withAttribute minusZero.key minusZero

theorem run_plusZero :
    (Session.onContext 0 (Call.floatAttribute (doubleType 1) ⟨0⟩).action).run doubles =
      .done (.attribute plusZero) (doubles.withContext 0 withPlusZero) :=
  Session.run_onContext_of_done (Session.contexts_withContext_self _ _) (by decide +kernel)

theorem run_minusZero :
    (Session.onContext 0 (Call.attributeOf (doubleType 0) minusZero.payload).action).run
      (doubles.withContext 0 withPlusZero) =
        .done (.attribute minusZero)
          ((doubles.withContext 0 withPlusZero).withContext 0 withZeros) :=
  Session.run_onContext_of_done (Session.contexts_withContext_self _ _) (by decide +kernel)

/-- The zeros are equal as numbers, and yet two instances. -/
theorem Run.canonical_zeros : Run makeDoubles doubles ∧
    Faithful 0 ((0, .floatAttribute (doubleType 1) ⟨0⟩) :: makeDoubles) ∧
    plusZero.equal minusZero = true ∧ plusZero.sameInstance minusZero = false := by
  have hheld : (Call.floatAttribute (doubleType 1) ⟨0⟩).Held doubles :=
    Call.held_of_type ⟨1, .float .f64, rfl⟩ rfl rfl
  have hheld' : (Call.attributeOf (doubleType 0) minusZero.payload).Held
      (doubles.withContext 0 withPlusZero) := Call.held_of_type ⟨0, .float .f64, rfl⟩ rfl rfl
  have hfaithful : Faithful 0 ((0, .floatAttribute (doubleType 1) ⟨0⟩) :: makeDoubles) := by
    constructor <;> simp [makeDoubles]
  obtain ⟨-, -, hiff⟩ := Run.canonical run_doubles hheld run_plusZero .here hheld' run_minusZero
    hfaithful rfl rfl
  refine ⟨run_doubles, hfaithful, by decide +kernel, ?_⟩
  rw [← Bool.not_eq_true]
  exact fun hsame => absurd (hiff.1 hsame) (by decide)

end RegionIR.Context
