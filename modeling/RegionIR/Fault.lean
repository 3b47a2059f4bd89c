import RegionIR.Handle

/-!
# Faults

A fault is a broken promise of the caller, or of the data the caller has
written without checks. It ends the run: there is no state after a fault.
Failures that a caller is expected to meet are refusals and live with the
operations that report them.
-/

namespace RegionIR

/-- Arithmetic steps that leave the range of their word. -/
inductive Overflow where
  | add
  | subtract
  | negate
  | shiftLeft
  deriving DecidableEq, Repr, Inhabited

/-- Causes that end a run. -/
inductive Fault where
  /-- A handle names nothing in the graph. -/
  | missing (kind : EntityKind)
  /-- The value that is to replace another one is not in the graph. -/
  | missingReplacement
  /-- An integer type of width zero was asked for. -/
  | zeroWidth
  /-- A module operation has no region to hold its body. -/
  | noRegion
  /-- An entry was placed in a list that already holds it. -/
  | alreadyListed
  /-- A key was interned although it is bound. -/
  | internedTwice
  /-- A stored position points past the end of its list. -/
  | outOfBounds (index length : Nat)
  /-- A stored position to remove points past the end of its list. -/
  | removalOutOfBounds (index length : Nat)
  /-- The rest of a list was taken from a position past its end. -/
  | startOutOfBounds (start length : Nat)
  | overflow (step : Overflow)
  /-- A walk along the nesting never ends, as the nesting has a cycle. -/
  | endlessNesting
  deriving DecidableEq, Repr, Inhabited

/-- The report of an arithmetic overflow. -/
def Overflow.message : Overflow → String
  | .add => "attempt to add with overflow"
  | .subtract => "attempt to subtract with overflow"
  | .negate => "attempt to negate with overflow"
  | .shiftLeft => "attempt to shift left with overflow"

/-- The report of a fault. -/
def Fault.message : Fault → String
  | .missing kind => s!"`{kind.word}` does not exist"
  | .missingReplacement => "`to` does not exist"
  | .zeroWidth => "bit width of integer type must be positive"
  | .noRegion => "module has no region"
  | .alreadyListed => "key is already in the list"
  | .internedTwice => "interned key already exists"
  | .outOfBounds index length =>
    s!"index out of bounds: the len is {length} but the index is {index}"
  | .removalOutOfBounds index length =>
    s!"removal index (is {index}) should be < len (is {length})"
  | .startOutOfBounds start length =>
    s!"range start index {start} out of range for slice of length {length}"
  | .overflow step => step.message
  | .endlessNesting => "nesting has no end"

end RegionIR
