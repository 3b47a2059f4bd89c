import RegionIR.Validation.Rule

/-!
# Refusals of edits

Why an edit of a graph is refused. A refusal is something that callers meet
and handle; what only broken data can cause is a fault.
-/

namespace RegionIR

/-- The lists in which edits name a position. -/
inductive Series where
  | operands
  | arguments
  | operations
  | blocks
  deriving DecidableEq, Repr, Inhabited

def Series.words : Series → String
  | .operands => "operands"
  | .arguments => "block arguments"
  | .operations => "block operations"
  | .blocks => "region blocks"

inductive EditError where
  | argumentNotOwned (arg : Value) (block : Block)
  | opNotOwned (op : Op) (block : Block)
  | opAlreadyOwned (op : Op) (parent : Block)
  | blockNotOwned (block : Block) (region : Region)
  | blockAlreadyOwned (block : Block) (owner : Region)
  /-- The operation would be nested in one of its own regions. -/
  | opCycle (op : Op) (block : Block)
  /-- The block would be nested in one of its own operations. -/
  | blockCycle (block : Block) (region : Region)
  /-- A position outside of its list. -/
  | outOfRange (series : Series) (index length : Nat)
  /-- Erasing would leave a use of an erased value behind. -/
  | inUse (value : Value) (user : Op)
  /-- Erasing would leave a successor that names an erased block. -/
  | blockInUse (block : Block) (user : Op)
  | noSymbolTable (op : Op)
  | notASymbol (op : Op)
  | duplicateSymbol (name : String) (existing : Op)
  /-- Rules failed. -/
  | invalid (error : ValidationError)
  deriving DecidableEq

def EditError.message : EditError → String
  | .argumentNotOwned arg block => s!"block argument {arg} does not belong to block {block}"
  | .opNotOwned op block => s!"operation {op} does not belong to block {block}"
  | .opAlreadyOwned op parent => s!"operation {op} already belongs to block {parent}"
  | .blockNotOwned block region => s!"block {block} does not belong to region {region}"
  | .blockAlreadyOwned block owner => s!"block {block} is already owned by region {owner}"
  | .opCycle op block =>
    s!"operation {op} can not be nested inside block {block} of its own regions"
  | .blockCycle block region =>
    s!"block {block} can not be nested inside region {region} of its own operations"
  | .outOfRange series index length =>
    s!"index {index} is out of range for {series.words} of length {length}"
  | .inUse value user => s!"value {value} is still used by operation {user}"
  | .blockInUse block user => s!"block {block} is still a successor of operation {user}"
  | .noSymbolTable op => s!"operation {op} does not carry a symbol table"
  | .notASymbol op => s!"operation {op} does not define a symbol"
  | .duplicateSymbol name existing =>
    s!"symbol `{name}` is already defined by operation {existing}"
  | .invalid error => error.message

end RegionIR
