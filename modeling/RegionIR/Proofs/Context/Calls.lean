import Mathlib.Logic.Relation
import RegionIR.Context.Basic
import RegionIR.Proofs.Action.Ends

/-!
# What calls do to a context

A call on a context binds at most a type and an attribute, each under a key
that was free.  `Change` lists the ways in which an entry comes about; a call
is a series of such changes, and what it hands out is bound where it is done.
Nothing else is known of a call afterwards, so what holds of all contexts is
proved from the lemmas on `Change` alone.

A type is made for its kind, or the caller plants it under some kind.  An
attribute is made of an admitted payload, or the caller plants it.  There are
two ways to be admitted.  One checks the payload against the type.  The other
is that of texts: it takes the type that stands under their kind and does not
ask whether a text fits it.

## Main results

* `Call`, `Change` — the public calls, and the changes they are made of.
* `Change.type_cases`, `Change.attribute_cases` — where an entry comes from.
* `Change.newType_unique`, `Change.newAttribute_unique` — one change, one entry.
* `Call.ends_action` — a call is a series of changes, and its answer is bound.
-/

namespace RegionIR.Context

open RegionIR.Action

/-! ## Calls -/

/-- A public call that may change a context. -/
inductive Call where
  | typeOf (kind : TypeKind)
  | addType (key : TypeKind) (t : Ty)
  | attributeOf (t : Ty) (p : Payload)
  | integerAttribute (t : Ty) (value : Word128)
  | floatAttribute (t : Ty) (value : Binary64)
  | indexAttribute (value : Word128)
  | stringAttribute (value : String)
  | addAttribute (key : AttributeKey) (a : Attribute)

/-- What a call hands out. -/
inductive Answer where
  | added
  | type (t : Ty)
  | attribute (a : Attribute)
  deriving DecidableEq

/-- Why a call is refused. -/
inductive CallError where
  | duplicate (e : DuplicateKeyError)
  | misfit (e : MisfitError)
  deriving DecidableEq

namespace Call

def action : Call → Action Context CallError Answer
  | .typeOf kind => do return .type (← Context.typeOf kind)
  | .addType key t => do
    Action.mapError .duplicate (Context.addType key t)
    return .added
  | .attributeOf t p => do
    return .attribute (← Action.mapError .misfit (Context.attributeOf t p))
  | .integerAttribute t value => do
    return .attribute (← Action.mapError .misfit (Context.integerAttribute t value))
  | .floatAttribute t value => do
    return .attribute (← Action.mapError .misfit (Context.floatAttribute t value))
  | .indexAttribute value => do
    return .attribute (← Action.mapError .misfit (Context.indexAttribute value))
  | .stringAttribute value => do return .attribute (← Context.stringAttribute value)
  | .addAttribute key a => do
    Action.mapError .duplicate (Context.addAttribute key a)
    return .added

/-- The types that the caller brings. -/
def types : Call → List Ty
  | .addType _ t => [t]
  | .attributeOf t _ => [t]
  | .integerAttribute t _ => [t]
  | .floatAttribute t _ => [t]
  | _ => []

/-- The attributes that the caller brings. -/
def attributes : Call → List Attribute
  | .addAttribute _ a => [a]
  | _ => []

end Call

/-! ## Changes -/

def withType (c : Context) (k : TypeKind) (t : Ty) : Context :=
  { c with types := c.types.bind k t }

def withAttribute (c : Context) (key : AttributeKey) (a : Attribute) : Context :=
  { c with attributes := c.attributes.bind key a }

/-- The context after it has made one more instance. -/
def advanced (c : Context) : Context := { c with made := c.made + 1 }

/-- The stamp of the next instance. -/
def nextStamp (c : Context) : Stamp := ⟨c.name, c.made⟩

/-- The kind of the type that is handed out for a kind. -/
def kindUnder (c : Context) (k : TypeKind) : TypeKind :=
  ((c.types.find? k).map Ty.kind).getD k

/-- The two ways in which an attribute gets its type: the payload has been checked, or it is a text
and the type is the one that stands under the kind of texts. -/
inductive Admitted (call : Call) (c : Context) : AttributeKey → Ty → Payload → Prop where
  | checked {t : Ty} {p : Payload} (ht : t ∈ call.types ∨ ∃ k, c.types.find? k = some t)
      (hfits : t.kind.misfit p = .ok none) : Admitted call c ⟨t.kind, p⟩ t p
  | text {t : Ty} {value : String} (ht : c.types.find? .nonNumeric = some t) :
      Admitted call c ⟨.nonNumeric, .str value⟩ t (.str value)

/-- One change of a context in the course of a call. -/
inductive Change (call : Call) : Context → Context → Prop where
  | newType {c : Context} {k : TypeKind} (hwidth : checkWidth k = .ok ())
      (hfree : c.types.find? k = none) : Change call c (c.advanced.withType k ⟨c.nextStamp, k⟩)
  | plantType {c : Context} {k : TypeKind} {t : Ty} (hcall : call = .addType k t)
      (hfree : c.types.find? k = none) : Change call c (c.withType k t)
  | newAttribute {c : Context} {key : AttributeKey} {t : Ty} {p : Payload}
      (hadmitted : Admitted call c key t p) (hfree : c.attributes.find? key = none) :
      Change call c (c.advanced.withAttribute key ⟨c.nextStamp, t, p⟩)
  | plantAttribute {c : Context} {key : AttributeKey} {a : Attribute}
      (hcall : call = .addAttribute key a) (hfree : c.attributes.find? key = none) :
      Change call c (c.withAttribute key a)

/-- A series of changes. -/
def Leads (call : Call) (c c' : Context) : Prop := Relation.ReflTransGen (Change call) c c'

/-! ## Look-ups after a change -/

section Pools

variable {κ β : Type} [DecidableEq κ] {p : Pool κ β} {k k' : κ} {x y : β}

theorem find?_bind_of_bound (hk : p.find? k' = some y) : (p.bind k x).find? k' = some y := by
  rw [Pool.find?_bind, hk, Option.some_or]

theorem find?_bind_self (hfree : p.find? k = none) : (p.bind k x).find? k = some x := by
  rw [Pool.find?_bind, hfree, Option.none_or, if_pos rfl]

/-- A free key may be bound. -/
theorem intern_of_free (hfree : p.find? k = none) : p.intern k x = .ok (p.bind k x) := by
  rw [Pool.intern, Pool.contains, hfree]
  rfl

/-- An entry was there before, or it is the new one. -/
theorem find?_bind_cases (h : (p.bind k x).find? k' = some y) :
    p.find? k' = some y ∨ (k = k' ∧ x = y) := by
  rw [Pool.find?_bind] at h
  cases hold : p.find? k' with
  | some z =>
      rw [hold, Option.some_or] at h
      exact Or.inl h
  | none =>
      rw [hold, Option.none_or] at h
      split at h
      · rename_i hk
        exact Or.inr ⟨hk, Option.some.inj h⟩
      · cases h

/-- A binding brings one entry. -/
theorem newEntry_unique_bind {z : β} {l l' : κ} (hfree : p.find? l = none)
    (hl : (p.bind k x).find? l = some y) (hfree' : p.find? l' = none)
    (hl' : (p.bind k x).find? l' = some z) : y = z := by
  rcases find?_bind_cases hl with hold | ⟨-, rfl⟩
  · cases hfree.symm.trans hold
  · rcases find?_bind_cases hl' with hold | ⟨-, rfl⟩
    · cases hfree'.symm.trans hold
    · rfl

end Pools

namespace Change

variable {call : Call} {c c' : Context}

theorem name_eq (h : Change call c c') : c'.name = c.name := by
  cases h <;> rfl

theorem made_le (h : Change call c c') : c.made ≤ c'.made := by
  cases h with
  | newType => exact Nat.le_succ _
  | plantType => exact Nat.le_refl _
  | newAttribute => exact Nat.le_succ _
  | plantAttribute => exact Nat.le_refl _

/-- A bound type stays bound. -/
theorem find?_types (h : Change call c c') {k : TypeKind} {t : Ty}
    (ht : c.types.find? k = some t) : c'.types.find? k = some t := by
  cases h with
  | newType => exact find?_bind_of_bound ht
  | plantType => exact find?_bind_of_bound ht
  | newAttribute => exact ht
  | plantAttribute => exact ht

/-- A bound attribute stays bound. -/
theorem find?_attributes (h : Change call c c') {key : AttributeKey} {a : Attribute}
    (ha : c.attributes.find? key = some a) : c'.attributes.find? key = some a := by
  cases h with
  | newType => exact ha
  | plantType => exact ha
  | newAttribute => exact find?_bind_of_bound ha
  | plantAttribute => exact find?_bind_of_bound ha

/-- A bound type was bound before, or it is new and of the kind it is bound under, or the caller
has planted it there. -/
theorem type_cases (h : Change call c c') {k : TypeKind} {t : Ty}
    (ht : c'.types.find? k = some t) :
    c.types.find? k = some t ∨
      (c.types.find? k = none ∧ checkWidth k = .ok () ∧ t = ⟨c.nextStamp, k⟩ ∧
        c'.made = c.made + 1) ∨
      call = .addType k t := by
  cases h with
  | newType hwidth hfree =>
      rcases find?_bind_cases ht with hold | ⟨rfl, rfl⟩
      · exact Or.inl hold
      · exact Or.inr (Or.inl ⟨hfree, hwidth, rfl, rfl⟩)
  | plantType hcall =>
      rcases find?_bind_cases ht with hold | ⟨rfl, rfl⟩
      · exact Or.inl hold
      · exact Or.inr (Or.inr hcall)
  | newAttribute => exact Or.inl ht
  | plantAttribute => exact Or.inl ht

/-- At most one key gets a type. -/
theorem newType_unique (h : Change call c c') {k k' : TypeKind} {t t' : Ty}
    (hfree : c.types.find? k = none) (ht : c'.types.find? k = some t)
    (hfree' : c.types.find? k' = none) (ht' : c'.types.find? k' = some t') : t = t' := by
  cases h with
  | newType => exact newEntry_unique_bind hfree ht hfree' ht'
  | plantType => exact newEntry_unique_bind hfree ht hfree' ht'
  | newAttribute => cases hfree.symm.trans ht
  | plantAttribute => cases hfree.symm.trans ht

/-- A bound attribute was bound before, or it is new and its payload is admitted, or the caller
has planted it there. -/
theorem attribute_cases (h : Change call c c') {key : AttributeKey} {a : Attribute}
    (ha : c'.attributes.find? key = some a) :
    c.attributes.find? key = some a ∨
      (c.attributes.find? key = none ∧ Admitted call c key a.ty a.payload ∧
        a.stamp = c.nextStamp ∧ c'.made = c.made + 1) ∨
      call = .addAttribute key a := by
  cases h with
  | newType => exact Or.inl ha
  | plantType => exact Or.inl ha
  | newAttribute hadmitted hfree =>
      rcases find?_bind_cases ha with hold | ⟨rfl, rfl⟩
      · exact Or.inl hold
      · exact Or.inr (Or.inl ⟨hfree, hadmitted, rfl, rfl⟩)
  | plantAttribute hcall =>
      rcases find?_bind_cases ha with hold | ⟨rfl, rfl⟩
      · exact Or.inl hold
      · exact Or.inr (Or.inr hcall)

/-- At most one key gets an attribute. -/
theorem newAttribute_unique (h : Change call c c') {key key' : AttributeKey} {a a' : Attribute}
    (hfree : c.attributes.find? key = none) (ha : c'.attributes.find? key = some a)
    (hfree' : c.attributes.find? key' = none) (ha' : c'.attributes.find? key' = some a') :
    a = a' := by
  cases h with
  | newType => cases hfree.symm.trans ha
  | plantType => cases hfree.symm.trans ha
  | newAttribute => exact newEntry_unique_bind hfree ha hfree' ha'
  | plantAttribute => exact newEntry_unique_bind hfree ha hfree' ha'

end Change

namespace Leads

variable {call : Call} {c c' c'' : Context}

theorem trans (h : Leads call c c') (h' : Leads call c' c'') : Leads call c c'' :=
  Relation.ReflTransGen.trans h h'

theorem find?_types (h : Leads call c c') {k : TypeKind} {t : Ty}
    (ht : c.types.find? k = some t) : c'.types.find? k = some t := by
  induction h with
  | refl => exact ht
  | tail _ hchange ih => exact hchange.find?_types ih

theorem find?_attributes (h : Leads call c c') {key : AttributeKey} {a : Attribute}
    (ha : c.attributes.find? key = some a) : c'.attributes.find? key = some a := by
  induction h with
  | refl => exact ha
  | tail _ hchange ih => exact hchange.find?_attributes ih

end Leads

/-! ## Calls as series of changes -/

section Ends

variable {ε : Type} {c : Context}

/-! ### The two makers -/

section Runs

variable {k : TypeKind} {t : Ty} {key : AttributeKey} {a : Attribute} {p : Payload}

theorem run_stamp : (stamp : Action Context ε Stamp).run c = .done c.nextStamp c.advanced := rfl

theorem run_internType (hfree : c.types.find? k = none) :
    (internType k t : Action Context ε Unit).run c = .done () (c.withType k t) :=
  run_bind_of_done _ (run_read_of_ok (intern_of_free hfree))

theorem run_internAttribute (hfree : c.attributes.find? key = none) :
    (internAttribute key a : Action Context ε Unit).run c = .done () (c.withAttribute key a) :=
  run_bind_of_done _ (run_read_of_ok (intern_of_free hfree))

theorem run_typeOf_of_bound (hwidth : checkWidth k = .ok ()) (ht : c.types.find? k = some t) :
    (typeOf k : Action Context ε Ty).run c = .done t c := by
  rw [typeOf, hwidth, run_bind_of_done _ (run_ofExcept_ok _ _), run_bind_of_done _ (run_get _), ht]
  rfl

theorem run_typeOf_of_free (hwidth : checkWidth k = .ok ()) (hfree : c.types.find? k = none) :
    (typeOf k : Action Context ε Ty).run c =
      .done ⟨c.nextStamp, k⟩ (c.advanced.withType k ⟨c.nextStamp, k⟩) := by
  have hintern : c.advanced.types.find? k = none := hfree
  rw [typeOf, hwidth, run_bind_of_done _ (run_ofExcept_ok _ _), run_bind_of_done _ (run_get _),
    hfree]
  dsimp only
  rw [run_bind_of_done _ run_stamp, run_bind_of_done _ (run_internType hintern)]
  rfl

theorem run_attributeAt_of_bound (ha : c.attributes.find? key = some a) :
    (attributeAt key t p : Action Context ε Attribute).run c = .done a c := by
  rw [attributeAt, run_bind_of_done _ (run_get _), ha]
  rfl

theorem run_attributeAt_of_free (hfree : c.attributes.find? key = none) :
    (attributeAt key t p : Action Context ε Attribute).run c =
      .done ⟨c.nextStamp, t, p⟩ (c.advanced.withAttribute key ⟨c.nextStamp, t, p⟩) := by
  have hintern : c.advanced.attributes.find? key = none := hfree
  rw [attributeAt, run_bind_of_done _ (run_get _), hfree]
  dsimp only
  rw [run_bind_of_done _ run_stamp, run_bind_of_done _ (run_internAttribute hintern)]
  rfl

/-- A payload that fits goes the way of all attributes. -/
theorem run_attributeOf (hfits : t.kind.misfit p = .ok none) :
    (attributeOf t p).run c = (attributeAt ⟨t.kind, p⟩ t p).run c := by
  rw [attributeOf, hfits, run_bind_of_done _ (run_ofExcept_ok _ _)]
  rfl

/-- The type of a kind is there or is made, and attributes are left alone. -/
theorem exists_run_typeOf_under (hwidth : checkWidth k = .ok ()) :
    ∃ t c', (typeOf k : Action Context ε Ty).run c = .done t c' ∧ t.kind = c.kindUnder k ∧
      c'.attributes = c.attributes := by
  unfold kindUnder
  cases hfind : c.types.find? k with
  | some t => exact ⟨t, c, run_typeOf_of_bound hwidth hfind, rfl, rfl⟩
  | none => exact ⟨_, _, run_typeOf_of_free hwidth hfind, rfl, rfl⟩

/-- There always is a type to hand out. -/
theorem exists_run_typeOf (c : Context) (hwidth : checkWidth k = .ok ()) :
    ∃ t c', (Call.typeOf k).action.run c = .done (.type t) c' := by
  obtain ⟨t, c', hrun, -, -⟩ := exists_run_typeOf_under (ε := CallError) (c := c) hwidth
  exact ⟨t, c', run_bind_of_done _ hrun⟩

/-- So there is an attribute, for a payload that fits. -/
theorem exists_run_attributeOf (c : Context) (hfits : t.kind.misfit p = .ok none) :
    ∃ a c', (Call.attributeOf t p).action.run c = .done (.attribute a) c' := by
  have hrun : ∃ a c', (attributeOf t p).run c = .done a c' := by
    rw [run_attributeOf hfits]
    cases hfind : c.attributes.find? ⟨t.kind, p⟩ with
    | some a => exact ⟨a, _, run_attributeAt_of_bound hfind⟩
    | none => exact ⟨_, _, run_attributeAt_of_free hfind⟩
  obtain ⟨a, c', hrun⟩ := hrun
  exact ⟨a, c', run_bind_of_done _ (run_mapError_of_done _ hrun)⟩

end Runs

/-! ### What each call leaves -/

variable (call : Call) {refused : ε → Context → Prop}

/-- The type is bound, or it is made and bound. -/
theorem ends_typeOf {k : TypeKind} {done : Ty → Context → Prop}
    (hdone : ∀ t c', Leads call c c' → c'.attributes = c.attributes →
      c'.types.find? k = some t → done t c') : ((typeOf k).run c).Ends done refused := by
  cases hwidth : checkWidth k with
  | error cause =>
      rw [typeOf, ends_bind, hwidth]
      trivial
  | ok _ =>
      cases hfind : c.types.find? k with
      | some t =>
          rw [run_typeOf_of_bound hwidth hfind]
          exact hdone t c .refl rfl hfind
      | none =>
          rw [run_typeOf_of_free hwidth hfind]
          exact hdone _ _ (.single (.newType hwidth hfind)) rfl (find?_bind_self hfind)

/-- The attribute is bound, or it is made of an admitted payload and bound. -/
theorem ends_attributeAt {key : AttributeKey} {t : Ty} {p : Payload}
    {done : Attribute → Context → Prop} (hadmitted : Admitted call c key t p)
    (hdone : ∀ a c', Leads call c c' → c'.attributes.find? key = some a → done a c') :
    ((attributeAt key t p).run c).Ends done refused := by
  cases hfind : c.attributes.find? key with
  | some a =>
      rw [run_attributeAt_of_bound hfind]
      exact hdone a c .refl hfind
  | none =>
      rw [run_attributeAt_of_free hfind]
      exact hdone _ _ (.single (.newAttribute hadmitted hfind)) (find?_bind_self hfind)

theorem ends_stringAttribute {value : String} {done : Attribute → Context → Prop}
    (hdone : ∀ a c', Leads call c c' →
      c'.attributes.find? ⟨.nonNumeric, .str value⟩ = some a → done a c') :
    ((stringAttribute value).run c).Ends done refused := by
  rw [stringAttribute, ends_bind]
  refine ends_typeOf call fun t c₁ hc₁ _ ht => ?_
  refine ends_attributeAt call (.text ht) fun a c₂ hc₂ ha => ?_
  exact hdone a c₂ (hc₁.trans hc₂) ha

section Checked

variable {done : Attribute → Context → Prop} {refused : MisfitError → Context → Prop}

theorem ends_attributeOf {t : Ty} {p : Payload}
    (ht : t ∈ call.types ∨ ∃ k, c.types.find? k = some t)
    (hdone : ∀ a c', Leads call c c' → c'.attributes.find? ⟨t.kind, p⟩ = some a → done a c')
    (hrefused : ∀ e, refused e c) : ((attributeOf t p).run c).Ends done refused := by
  rw [attributeOf, ends_bind, ends_ofExcept]
  intro misfit hmisfit
  rw [ends_bind, ends_refuseIf]
  refine ⟨fun hnone => ?_, fun e _ => hrefused e⟩
  subst hnone
  exact ends_attributeAt call (.checked ht hmisfit) hdone

/-- A test of the kind beforehand changes nothing. -/
theorem ends_attributeOf_of_kind {t : Ty} {p : Payload} (test : TypeKind → Bool)
    (ht : t ∈ call.types ∨ ∃ k, c.types.find? k = some t)
    (hdone : ∀ a c', Leads call c c' → c'.attributes.find? ⟨t.kind, p⟩ = some a → done a c')
    (hrefused : ∀ e, refused e c) :
    ((do expectKind t test p; attributeOf t p : Action Context MisfitError Attribute).run c).Ends
      done refused := by
  rw [ends_bind, expectKind, ends_ite]
  exact ⟨fun _ => ends_attributeOf call ht hdone hrefused, fun _ => hrefused _⟩

theorem ends_indexAttribute {value : Word128}
    (hdone : ∀ t a c', Leads call c c' → c'.types.find? .index = some t →
      c'.attributes.find? ⟨t.kind, .int value⟩ = some a → done a c')
    (hrefused : ∀ e c', Leads call c c' → c'.attributes = c.attributes → refused e c') :
    ((indexAttribute value).run c).Ends done refused := by
  rw [indexAttribute, ends_bind]
  refine ends_typeOf call fun t c₁ hc₁ hkept ht => ?_
  refine ends_attributeOf call (Or.inr ⟨_, ht⟩) (fun a c₂ hc₂ ha => ?_) fun e =>
    hrefused e c₁ hc₁ hkept
  exact hdone t a c₂ (hc₁.trans hc₂) (hc₂.find?_types ht) ha

end Checked

section Planted

variable {done : Unit → Context → Prop} {refused : DuplicateKeyError → Context → Prop}

theorem ends_addType {k : TypeKind} {t : Ty}
    (hdone : c.types.find? k = none → done () (c.withType k t)) (hrefused : ∀ e, refused e c) :
    ((addType k t).run c).Ends done refused := by
  rw [addType, ends_bind, ends_get, Pool.add]
  cases hfind : c.types.find? k with
  | some old => exact hrefused _
  | none => exact hdone hfind

theorem ends_addAttribute {key : AttributeKey} {a : Attribute}
    (hdone : c.attributes.find? key = none → done () (c.withAttribute key a))
    (hrefused : ∀ e, refused e c) : ((addAttribute key a).run c).Ends done refused := by
  rw [addAttribute, ends_bind, ends_get, Pool.add]
  cases hfind : c.attributes.find? key with
  | some old => exact hrefused _
  | none => exact hdone hfind

end Planted

end Ends

/-- What a call hands out is bound under the key that the call is about. -/
def Call.Answered (c : Context) : Call → Answer → Prop
  | .typeOf k, .type t => c.types.find? k = some t
  | .addType k t, .added => c.types.find? k = some t
  | .attributeOf t p, .attribute a => c.attributes.find? ⟨t.kind, p⟩ = some a
  | .integerAttribute t value, .attribute a => c.attributes.find? ⟨t.kind, .int value⟩ = some a
  | .floatAttribute t value, .attribute a => c.attributes.find? ⟨t.kind, .float value⟩ = some a
  | .indexAttribute value, .attribute a =>
    ∃ t, c.types.find? .index = some t ∧ c.attributes.find? ⟨t.kind, .int value⟩ = some a
  | .stringAttribute value, .attribute a =>
    c.attributes.find? ⟨.nonNumeric, .str value⟩ = some a
  | .addAttribute key a, .added => c.attributes.find? key = some a
  | _, _ => False

/-- An attribute that is handed out is bound. -/
theorem Call.Answered.attribute_bound {call : Call} {c : Context} {a : Attribute}
    (h : call.Answered c (.attribute a)) : ∃ key, c.attributes.find? key = some a := by
  cases call with
  | typeOf => exact h.elim
  | addType => exact h.elim
  | addAttribute => exact h.elim
  | attributeOf => exact ⟨_, h⟩
  | integerAttribute => exact ⟨_, h⟩
  | floatAttribute => exact ⟨_, h⟩
  | stringAttribute => exact ⟨_, h⟩
  | indexAttribute =>
      obtain ⟨_, -, ha⟩ := h
      exact ⟨_, ha⟩

/-- A call is a series of changes, done or refused.  What it hands out is bound, and a refusal
leaves the attributes as they are. -/
theorem Call.ends_action (call : Call) (c : Context) :
    (call.action.run c).Ends (fun answer c' => Leads call c c' ∧ call.Answered c' answer)
      fun _ c' => Leads call c c' ∧ c'.attributes = c.attributes := by
  cases call with
  | typeOf k =>
      rw [action, ends_bind]
      exact ends_typeOf _ fun t c' hc' _ ht => ⟨hc', ht⟩
  | addType k t =>
      rw [action, ends_bind, ends_mapError]
      refine ends_addType (fun hfree => ⟨.single (.plantType rfl hfree), ?_⟩) fun _ => ⟨.refl, rfl⟩
      exact find?_bind_self hfree
  | attributeOf t p =>
      rw [action, ends_bind, ends_mapError]
      exact ends_attributeOf _ (Or.inl (List.mem_singleton.2 rfl)) (fun a c' hc' ha => ⟨hc', ha⟩)
        fun _ => ⟨.refl, rfl⟩
  | integerAttribute t value =>
      rw [action, ends_bind, ends_mapError]
      exact ends_attributeOf_of_kind _ _ (Or.inl (List.mem_singleton.2 rfl))
        (fun a c' hc' ha => ⟨hc', ha⟩) fun _ => ⟨.refl, rfl⟩
  | floatAttribute t value =>
      rw [action, ends_bind, ends_mapError]
      exact ends_attributeOf_of_kind _ _ (Or.inl (List.mem_singleton.2 rfl))
        (fun a c' hc' ha => ⟨hc', ha⟩) fun _ => ⟨.refl, rfl⟩
  | indexAttribute value =>
      rw [action, ends_bind, ends_mapError]
      exact ends_indexAttribute _ (fun t a c' hc' ht ha => ⟨hc', t, ht, ha⟩) fun _ _ hc' hkept =>
        ⟨hc', hkept⟩
  | stringAttribute value =>
      rw [action, ends_bind]
      exact ends_stringAttribute _ fun a c' hc' ha => ⟨hc', ha⟩
  | addAttribute key a =>
      rw [action, ends_bind, ends_mapError]
      refine ends_addAttribute (fun hfree => ⟨.single (.plantAttribute rfl hfree), ?_⟩)
        fun _ => ⟨.refl, rfl⟩
      exact find?_bind_self hfree

end RegionIR.Context
