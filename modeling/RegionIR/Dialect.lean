import RegionIR.Edit.Module

/-!
# A small dialect

Definitions of operations and of extra verifiers that exercise the graph:
constants, sums, functions, symbol tables and terminators.
-/

namespace RegionIR

/-- The extra verifiers of the dialect. -/
inductive DialectVerifier where
  /-- All operands have the type of the first. -/
  | sameOperandTypes
  /-- No operation passes. -/
  | alwaysFails
  /-- No operation passes, and the complaint tells all that a rule can see. -/
  | describe
  deriving DecidableEq, Repr, Inhabited

namespace DialectVerifier

def name : DialectVerifier → String
  | .sameOperandTypes => "same-operand-types"
  | .alwaysFails => "always-fails"
  | .describe => "describe"

variable {V : Type}

/-- Some value of the list has another type. No value is looked at after the
first one of another type. -/
def someTypeDiffers (g : Graph V) (first : Ty) : List Value → Except Fault Bool
  | [] => .ok false
  | v :: rest => do
    if (← g.value v).ty.equal first then someTypeDiffers g first rest else return true

/-- The complaint about operands of different types. -/
def mixedOperands (w : OpView V) : Except Fault (Option String) := do
  match w.data.operands with
  | [] => return none
  | v :: rest =>
    let first := (← w.graph.value v).ty
    if ← someTypeDiffers w.graph first rest then
      return some s!"{w.data.name} requires operands of the same type"
    else
      return none

/-- The types of values, with a question mark for a missing one. -/
def typesOf (g : Graph V) (values : List Value) : String :=
  " ".intercalate (values.map fun v =>
    match g.values.find? v with
    | some d => d.ty.text
    | none => "?")

/-- All that a rule can see of an operation. -/
def description (w : OpView V) : String :=
  let parent := match w.data.parent with
    | some b => b.text
    | none => "none"
  w.data.name ++ " " ++ w.op.text ++
    " operands [" ++ typesOf w.graph w.data.operands ++
    "] results [" ++ typesOf w.graph w.data.results ++
    "] attrs [" ++ " ".intercalate w.data.attrs.keys ++
    "] regions " ++ toString w.data.regions.length ++
    " successors " ++ toString w.data.successors.length ++
    " parent " ++ parent ++
    " table " ++ toString w.data.symbols.isSome ++
    " listed " ++ toString (w.graph.ops.contains w.op)

def check : DialectVerifier → OpView V → Except Fault (Option String)
  | .sameOperandTypes, w => mixedOperands w
  | .alwaysFails, w => .ok (some s!"{w.data.name} {w.op} always fails")
  | .describe, w => .ok (some (description w))

instance : OpVerifier DialectVerifier := ⟨name, check⟩

end DialectVerifier

namespace Dialect

/-- A constant has one result, of the type of its attribute `value`. -/
def constant : OpDef DialectVerifier where
  name := "test.constant"
  traits := [.operands 0, .results 1]
  resultTypes := fun _ _ attrs => .ok ((attrs.find? "value").toList.map (·.ty))

/-- A sum has two operands of one type and a result of that type. -/
def add : OpDef DialectVerifier where
  name := "test.add"
  traits := [.operands 2, .results 1]
  resultTypes := fun g operands _ =>
    operands.head?.toList.mapM fun v => do return (← g.value v).ty
  verifiers := [.sameOperandTypes]

/-- A function is a symbol with one region. -/
def func : OpDef DialectVerifier where
  name := "test.func"
  traits := [.operands 0, .results 0, .regions 1, .symbol]

/-- A table of symbols without a region. -/
def table : OpDef DialectVerifier where
  name := "test.table"
  traits := [.operands 0, .symbolTable]

/-- A terminator with any number of operands. -/
def yield : OpDef DialectVerifier where
  name := "test.yield"
  traits := [.variadicOperands, .results 0, .terminator]

/-- All definitions, that of modules included. -/
def definitions : List (OpDef DialectVerifier) :=
  [constant, add, func, table, yield, .module]

/-- All verifiers. -/
def verifiers : List DialectVerifier := [.sameOperandTypes, .alwaysFails, .describe]

end Dialect

end RegionIR
