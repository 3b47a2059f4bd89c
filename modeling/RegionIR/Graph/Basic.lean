import RegionIR.Context.Instance
import RegionIR.Data.Roster
import RegionIR.Graph.Trait

/-!
# The graph

A graph stores values, operations, blocks and regions, and names each by a
handle. Operations hold regions, regions hold blocks in order, blocks hold
operations in order. Every link is stored at both of its ends:

* an operand slot names a value, and the value's use list names the slot;
* a block lists an operation, and the operation names its parent block;
* a region lists a block, and the block names its owner;
* an operation lists a region, and the region names its parent operation;
* results and arguments are listed by their producer and name it.

Nothing in the types keeps the two ends in step; this is the work of the
edits, and of the rules that look for broken links.

The type `V` is that of the names of extra verifiers. What a verifier checks
is given by the class `OpVerifier`, beside the rules.
-/

namespace RegionIR

/-- An operand slot: which operation, and which of its operands. -/
structure Use where
  user : Op
  index : Nat
  deriving DecidableEq, Repr, Inhabited

/-- What produces a value. -/
inductive Origin where
  | result (op : Op) (index : Nat)
  /-- An argument; one that was taken out of its block has neither. -/
  | argument (block : Option Block) (index : Option Nat)
  deriving DecidableEq, Repr, Inhabited

namespace Origin

def isResult : Origin → Bool
  | .result _ _ => true
  | .argument _ _ => false

def op? : Origin → Option Op
  | .result op _ => some op
  | .argument _ _ => none

def block? : Origin → Option Block
  | .result _ _ => none
  | .argument block _ => block

def index? : Origin → Option Nat
  | .result _ index => some index
  | .argument _ index => index

end Origin

structure ValueData where
  ty : Ty
  origin : Origin
  /-- The slots that name the value, in the order of their registration. -/
  uses : List Use := []
  deriving DecidableEq, Inhabited

namespace ValueData

def addUse (d : ValueData) (u : Use) : ValueData := { d with uses := d.uses ++ [u] }

/-- Drops the first registration of a slot; one that is not registered is no matter. -/
def dropUse (d : ValueData) (u : Use) : ValueData := { d with uses := d.uses.erase u }

def withOrigin (d : ValueData) (o : Origin) : ValueData := { d with origin := o }

end ValueData

abbrev AttributeMap := Table String Attribute

structure OpData (V : Type) where
  name : String
  operands : List Value
  results : List Value
  attrs : AttributeMap
  regions : List Region
  successors : List Block
  parent : Option Block
  traits : List OpTrait
  verifiers : List V
  /-- The symbol table, by name, if the operation has one. -/
  symbols : Option (Table String Op)
  deriving DecidableEq, Inhabited

namespace OpData

variable {V : Type}

def hasTrait (d : OpData V) (t : OpTrait) : Bool := t ∈ d.traits

def isTerminator (d : OpData V) : Bool := d.hasTrait .terminator

/-- The text of the attribute that names a symbol. -/
def symbolName? (d : OpData V) : Option String :=
  (d.attrs.find? OpTrait.symbolAttribute).bind fun a => a.payload.asStr?

end OpData

structure BlockData where
  args : List Value := []
  ops : Roster Op := .empty
  owner : Option Region := none
  deriving DecidableEq, Inhabited

structure RegionData where
  blocks : Roster Block := .empty
  parent : Option Op := none
  deriving DecidableEq, Inhabited

structure Graph (V : Type) where
  values : Table Value ValueData := .empty
  ops : Table Op (OpData V) := .empty
  blocks : Table Block BlockData := .empty
  regions : Table Region RegionData := .empty
  deriving DecidableEq, Inhabited

/-- The entry of a handle that is expected to be there. -/
def Table.demand {k : EntityKind} {β : Type} (t : Table (Handle k) β) (h : Handle k) :
    Except Fault β :=
  match t.find? h with
  | some x => .ok x
  | none => .error (.missing k)

namespace Graph

variable {V : Type}

/-- The graph without entities. -/
def empty : Graph V := {}

def value (g : Graph V) (v : Value) : Except Fault ValueData := g.values.demand v

def op (g : Graph V) (o : Op) : Except Fault (OpData V) := g.ops.demand o

def block (g : Graph V) (b : Block) : Except Fault BlockData := g.blocks.demand b

def region (g : Graph V) (r : Region) : Except Fault RegionData := g.regions.demand r

/-! ## Queries on a block or a symbol table -/

/-- The last operation of a block if it is a terminator. -/
def terminator? (g : Graph V) (b : Block) : Except Fault (Option Op) := do
  match (← g.block b).ops.back? with
  | none => return none
  | some o => return if (← g.op o).isTerminator then some o else none

/-- The blocks that may follow a block, named by its terminator. -/
def successors (g : Graph V) (b : Block) : Except Fault (List Block) := do
  match ← g.terminator? b with
  | none => return []
  | some o => return (← g.op o).successors

/-- The operation that holds the region of a block. -/
def parentOp? (g : Graph V) (b : Block) : Except Fault (Option Op) := do
  match (← g.block b).owner with
  | none => return none
  | some r => return (← g.region r).parent

/-- The operation that a symbol table binds to a name. -/
def lookUpSymbol (g : Graph V) (table : Op) (name : String) : Except Fault (Option Op) := do
  return (← g.op table).symbols.bind fun t => t.find? name

end Graph

theorem Table.demand_eq_ok_iff {k : EntityKind} {β : Type} {t : Table (Handle k) β}
    {h : Handle k} {x : β} : t.demand h = .ok x ↔ t.find? h = some x := by
  unfold demand
  cases t.find? h <;> simp

theorem Table.demand_eq_error_iff {k : EntityKind} {β : Type} {t : Table (Handle k) β}
    {h : Handle k} {c : Fault} : t.demand h = .error c ↔ t.find? h = none ∧ c = .missing k := by
  unfold demand
  cases t.find? h <;> simp [eq_comm]

end RegionIR
