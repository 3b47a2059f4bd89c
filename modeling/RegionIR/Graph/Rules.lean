import RegionIR.Graph.Nesting
import RegionIR.Validation.Rule

/-!
# The rules of an operation

Every operation obeys five built-in rules, the rules of its traits and its
extra verifiers, in this order. Rules look at a view: the graph, the handle
of the operation and its data, which need not be in the graph yet.
-/

namespace RegionIR

/-- What a rule sees of an operation. -/
structure OpView (V : Type) where
  graph : Graph V
  op : Op
  data : OpData V

/-- Extra verifiers: each has a name and a check of its own. -/
class OpVerifier (V : Type) where
  name : V → String
  check : V → OpView V → Except Fault (Option String)

/-- A verifier as a rule. -/
def OpVerifier.rule {V : Type} [OpVerifier V] (v : V) : Rule (OpView V) :=
  ⟨name v, check v⟩

namespace OpView

variable {V : Type}

/-! ## Built-in rules -/

/-- The first operand, from position `i` on, that is not in the graph. -/
def missingOperand (w : OpView V) : Nat → List Value → Option String
  | _, [] => none
  | i, v :: rest =>
    if w.graph.values.contains v then w.missingOperand (i + 1) rest
    else some s!"operand #{i} of {w.data.name} refers to value {v} that does not exist"

/-- The first result, from position `i` on, that does not name this
operation and this position as its origin. -/
def foreignResult (w : OpView V) : Nat → List Value → Option String
  | _, [] => none
  | i, v :: rest =>
    if (w.graph.values.find? v).map (·.origin) = some (.result w.op i) then
      w.foreignResult (i + 1) rest
    else some s!"result #{i} of {w.data.name} is not owned by it at index {i}"

/-- The first region that repeats one of `seen` or an earlier one, does not
exist, or belongs to another operation. -/
def foreignRegion (w : OpView V) (seen : List Region) : List Region → Option String
  | [] => none
  | r :: rest =>
    if r ∈ seen then some s!"region {r} appears twice in {w.data.name}"
    else
      match w.graph.regions.find? r with
      | none => some s!"region {r} does not exist"
      | some d =>
        match d.parent with
        | none => w.foreignRegion (r :: seen) rest
        | some parent =>
          if parent = w.op then w.foreignRegion (r :: seen) rest
          else some s!"region {r} is already owned by operation {parent}"

/-- The first successor that does not exist. -/
def missingSuccessor (w : OpView V) : Option String :=
  (w.data.successors.find? fun b => !w.graph.blocks.contains b).map fun b =>
    s!"successor block {b} does not exist"

/-- Why the parent block can not hold the operation. -/
def badParent (w : OpView V) : Except Fault (Option String) := do
  match w.data.parent with
  | none => return none
  | some b =>
    if !w.graph.blocks.contains b then
      return some s!"parent block {b} does not exist"
    else if ← w.graph.blockInside b w.data.regions then
      return some s!"{w.data.name} can not be placed in block {b} of its own regions"
    else
      return none

/-- The name of the rule that operands are in the graph. -/
def operandsExist : String := "operands-exist"

/-- The rules that hold for all operations. -/
def builtinRules : List (Rule (OpView V)) := [
  ⟨operandsExist, fun w => .ok (w.missingOperand 0 w.data.operands)⟩,
  ⟨"results-owned", fun w => .ok (w.foreignResult 0 w.data.results)⟩,
  ⟨"regions-owned", fun w => .ok (w.foreignRegion [] w.data.regions)⟩,
  ⟨"successors-exist", fun w => .ok w.missingSuccessor⟩,
  ⟨"parent-acyclic", badParent⟩]

/-! ## Rules of traits -/

/-- The complaint about a count that is not the required one. -/
def wrongCount (w : OpView V) (required : Nat) (what : String) (got : Nat) : Option String :=
  if got = required then none
  else some s!"{w.data.name} requires exactly {required} {what}, but got {got}"

/-- A symbol has its name in a text attribute. -/
def unnamedSymbol (w : OpView V) : Option String :=
  match w.data.attrs.find? OpTrait.symbolAttribute with
  | none => some s!"{w.data.name} requires attribute `{OpTrait.symbolAttribute}`"
  | some a =>
    if a.payload.asStr?.isSome then none
    else some s!"{w.data.name} requires attribute `{OpTrait.symbolAttribute}` to be a string"

/-- The complaint of a trait about an operation. -/
def brokenTrait (w : OpView V) : OpTrait → Option String
  | .operands n => w.wrongCount n "operands" w.data.operands.length
  | .results n => w.wrongCount n "results" w.data.results.length
  | .regions n => w.wrongCount n "regions" w.data.regions.length
  | .symbol => w.unnamedSymbol
  | .variadicOperands => none
  | .variadicResults => none
  | .symbolTable => none
  | .terminator => none

/-- A trait as a rule. -/
def traitRule (t : OpTrait) : Rule (OpView V) :=
  ⟨t.ruleName, fun w => .ok (w.brokenTrait t)⟩

/-! ## All rules -/

variable [OpVerifier V]

/-- All rules of an operation. -/
def rules (w : OpView V) : List (Rule (OpView V)) :=
  builtinRules ++ w.data.traits.map traitRule ++ w.data.verifiers.map OpVerifier.rule

/-- The failures of all rules, in the order of the rules. -/
def failures (w : OpView V) : Except Fault (List RuleFailure) :=
  Rule.collect w w.rules

end OpView

end RegionIR
