import RegionIR.Context.Instance

/-!
# Insert-once tables

A pool binds keys to instances. A bound key is never bound again: adding
under it is an error, which tells whether the two instances are equal.
-/

namespace RegionIR

/-- An insert-once table; the entries stand in the order of their insertion. -/
structure Pool (κ β : Type) where
  entries : List (κ × β) := []
  deriving DecidableEq

namespace Pool

variable {κ β : Type}

def empty : Pool κ β := ⟨[]⟩

instance : EmptyCollection (Pool κ β) := ⟨empty⟩

instance : Inhabited (Pool κ β) := ⟨empty⟩

def size (p : Pool κ β) : Nat := p.entries.length

def isEmpty (p : Pool κ β) : Bool := p.entries.isEmpty

variable [DecidableEq κ]

/-- The instance bound to a key. -/
def find? (p : Pool κ β) (k : κ) : Option β :=
  (p.entries.find? fun e => decide (e.1 = k)).map Prod.snd

def contains (p : Pool κ β) (k : κ) : Bool := (p.find? k).isSome

/-- The pool with one more entry. -/
def bind (p : Pool κ β) (k : κ) (x : β) : Pool κ β := ⟨p.entries ++ [(k, x)]⟩

/-- Binds a key that was looked up before and not found. -/
def intern (p : Pool κ β) (k : κ) (x : β) : Except Fault (Pool κ β) :=
  if p.contains k then .error .internedTwice else .ok (p.bind k x)

@[simp] theorem find?_empty (k : κ) : (empty : Pool κ β).find? k = none := rfl

theorem find?_bind (p : Pool κ β) (k k' : κ) (x : β) :
    (p.bind k x).find? k' =
      (p.find? k').or (if k = k' then some x else none) := by
  unfold find? bind
  rw [List.find?_append]
  cases h : p.entries.find? fun e => decide (e.1 = k') with
  | some e => simp
  | none =>
    by_cases hk : k = k'
    · simp [List.find?, hk]
    · simp [List.find?, hk]

end Pool

/-- The key of an entry that is already bound. -/
inductive BoundKey where
  | type (kind : TypeKind)
  | attr (key : AttributeKey)
  deriving DecidableEq, Inhabited

namespace BoundKey

/-- The table that the key is bound in. -/
def table : BoundKey → String
  | .type _ => "type"
  | .attr _ => "attribute"

def text : BoundKey → String
  | .type kind => kind.text
  | .attr key => key.text

end BoundKey

/-- An entry was added under a key that is already bound. -/
inductive DuplicateKeyError where
  /-- The bound instance equals the given one. -/
  | sameValue (key : BoundKey)
  /-- The bound instance differs from the given one. -/
  | differentValue (key : BoundKey)
  deriving DecidableEq

def DuplicateKeyError.message : DuplicateKeyError → String
  | .sameValue key =>
    s!"{key.table} `{key.text}` already exists in the context with the same value"
  | .differentValue key =>
    s!"{key.table} key `{key.text}` already exists in the context with a different value"

/-- Adds an entry, unless the key is bound; `equal` compares the bound
instance with the given one. -/
def Pool.add {κ β : Type} [DecidableEq κ] (p : Pool κ β) (equal : β → β → Bool)
    (name : κ → BoundKey) (k : κ) (x : β) : Except DuplicateKeyError (Pool κ β) :=
  match p.find? k with
  | some old =>
    .error (if equal old x then .sameValue (name k) else .differentValue (name k))
  | none => .ok (p.bind k x)

end RegionIR
