import RegionIR.Edit.Placement
import RegionIR.Graph.Rules

/-!
# Creation of operations

An operation is created from a request. Its results are put into the graph
first, so that rules can look at their types; then every rule runs on a view
of the operation as it would be. If one fails, the results are dropped again
and all failures are reported. Only the handles are lost.
-/

namespace RegionIR

/-- What is wanted of a new operation. -/
structure OpRequest (V : Type) where
  name : String
  operands : List Value := []
  attrs : AttributeMap := .empty
  regions : List Region := []
  successors : List Block := []
  parent : Option Block := none
  resultTypes : List Ty := []
  traits : List OpTrait := []
  verifiers : List V := []

/-- The entry of the new operation, before it is placed in a block. A
trait counts once, and a table belongs to whoever has the trait for it. -/
def OpRequest.data {V : Type} (r : OpRequest V) (results : List Value) : OpData V :=
  let traits := OpTrait.withoutRepeats r.traits
  { name := r.name
    operands := r.operands
    results := results
    attrs := r.attrs
    regions := r.regions
    successors := r.successors
    parent := none
    traits := traits
    verifiers := r.verifiers
    symbols := if .symbolTable ∈ traits then some .empty else none }

/-- A definition of a kind of operation. -/
structure OpDef (V : Type) where
  name : String
  traits : List OpTrait
  /-- The types of the results, given operands that are in the graph. -/
  resultTypes : Graph V → List Value → AttributeMap → Except Fault (List Ty) :=
    fun _ _ _ => .ok []
  verifiers : List V := []

namespace Edit

variable {V : Type}

/-- Puts the results of an operation into the graph. -/
def newResults (o : Op) (types : List Ty) : Edit V (List Value) :=
  .collect types.zipIdx fun ty => do
    let v ← freshValue
    putValue v { ty := ty.1, origin := .result o ty.2 }
    return v

/-- Registers the operand slots and the regions of an operation, and puts it
into the graph. -/
def link (o : Op) (d : OpData V) : Edit V Unit := do
  .forEach d.operands.zipIdx fun v => updateValue v.1 fun e => e.addUse ⟨o, v.2⟩
  .forEach d.regions fun r => updateRegion r fun e => { e with parent := some o }
  putOp o d

variable [OpVerifier V]

/-- Creates an operation, at the end of its parent block if it has one. -/
def create (r : OpRequest V) : Edit V Op := do
  let o ← freshOp
  let results ← newResults o r.resultTypes
  let d := r.data results
  let failures ← ask fun g => (OpView.mk g o { d with parent := r.parent }).failures
  match ValidationError.ofFailures failures with
  | some e =>
    .forEach results dropValue
    .refuse (.invalid e)
  | none =>
    link o d
    match r.parent with
    | none => return o
    | some b =>
      attachOp b none o
      return o

/-- The complaint about an operand that is not in the graph. -/
def missingOperandError (name : String) (v : Value) : ValidationError :=
  .single OpView.operandsExist
    s!"operand of {name} refers to value {v} that does not exist"

/-- Creates an operation of a definition. Operands are checked before the
definition computes the types of the results from them. -/
def createOf (definition : OpDef V) (operands : List Value) (attrs : AttributeMap)
    (regions : List Region) (parent : Option Block) : Edit V Op := do
  let g ← graph
  match operands.find? fun v => !g.values.contains v with
  | some v => .refuse (.invalid (missingOperandError definition.name v))
  | none =>
    let types ← ask fun g => definition.resultTypes g operands attrs
    create
      { name := definition.name
        operands := operands
        attrs := attrs
        regions := regions
        parent := parent
        resultTypes := types
        traits := definition.traits
        verifiers := definition.verifiers }

end Edit

end RegionIR
