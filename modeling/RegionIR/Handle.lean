import RegionIR.Data.Table

/-!
# Handles of graph entities

Values, operations, blocks and regions are named by numbers. The kind of
entity is part of the handle's type, so a block can not be passed where an
operation is meant, while all four kinds share one set of laws.
-/

namespace RegionIR

/-- The four kinds of entities that a graph stores. -/
inductive EntityKind where
  | value
  | op
  | block
  | region
  deriving DecidableEq, Repr, Inhabited

/-- The word for a kind of entity in messages. -/
def EntityKind.word : EntityKind → String
  | .value => "value"
  | .op => "op"
  | .block => "block"
  | .region => "region"

/-- What stands before the number in the text of a handle. -/
def EntityKind.mark : EntityKind → String
  | .value => "%"
  | .op => "op"
  | .block => "^bb"
  | .region => "region"

/-- The name of one entity of kind `k`. -/
structure Handle (k : EntityKind) where
  num : Nat
  deriving DecidableEq, Repr, Inhabited

abbrev Value := Handle .value
abbrev Op := Handle .op
abbrev Block := Handle .block
abbrev Region := Handle .region

namespace Handle

variable {k : EntityKind}

/-- The text of a handle: `%1`, `op1`, `^bb1`, `region1`. -/
def text (h : Handle k) : String := k.mark ++ toString h.num

instance : ToString (Handle k) := ⟨text⟩

/-- Handles are looked for by their numbers. -/
instance decidableMem (h : Handle k) (l : List (Handle k)) : Decidable (h ∈ l) := inferInstance

instance : LT (Handle k) := ⟨fun a b => a.num < b.num⟩

theorem lt_def {a b : Handle k} : a < b ↔ a.num < b.num := Iff.rfl

theorem ext_num {a b : Handle k} (h : a.num = b.num) : a = b := by
  cases a; cases b; cases h; rfl

/-- Handles of one kind are ordered by their numbers. -/
instance : OrderedKey (Handle k) where
  decEq := inferInstance
  decLT := fun a b => inferInstanceAs (Decidable (a.num < b.num))
  irrefl := fun a => Nat.lt_irrefl a.num
  trans := fun h₁ h₂ => Nat.lt_trans (lt_def.1 h₁) (lt_def.1 h₂)
  connected := fun h₁ h₂ =>
    ext_num (Nat.le_antisymm (Nat.not_lt.1 h₂) (Nat.not_lt.1 h₁))

end Handle

/-- The numbers that the next new entity of each kind will get. They are words of 32 bits, and one
that stands at its last number is at its end (`Edit.fresh`). -/
structure NextHandles where
  value : Nat := 1
  op : Nat := 1
  block : Nat := 1
  region : Nat := 1
  deriving DecidableEq, Repr, Inhabited

namespace NextHandles

/-- The number that the next new entity of a kind gets. -/
def of (n : NextHandles) : EntityKind → Nat
  | .value => n.value
  | .op => n.op
  | .block => n.block
  | .region => n.region

/-- The counters with that of a kind put to a number. -/
def set (n : NextHandles) (num : Nat) : EntityKind → NextHandles
  | .value => { n with value := num }
  | .op => { n with op := num }
  | .block => { n with block := num }
  | .region => { n with region := num }

end NextHandles

end RegionIR
