import RegionIR.Graph.Rules

/-!
# Verification of a subtree

Verification checks the rules of an operation and of everything nested in
it again, and looks at every link from both ends. It collects all failures
in one pass, in the order of the walk: an operation's rules, its place in
its parent, its operand slots, the uses of its results, its regions with
their blocks and operations, and last its symbol table, by name.
-/

namespace RegionIR
namespace Graph

variable {V : Type}

/-! ## Single links -/

/-- A failure, if there is something to report. -/
def report (rule : String) (broken : Bool) (message : String) : List RuleFailure :=
  if broken then [⟨rule, message⟩] else []

/-- The parent block of an operation lists it. -/
def unlistedInParent (g : Graph V) (o : Op) (d : OpData V) : List RuleFailure :=
  match d.parent with
  | none => []
  | some b =>
    let listed := match g.blocks.find? b with
      | none => false
      | some block => decide (o ∈ block.ops)
    report "op-parent" (!listed) s!"{d.name} {o} is not listed in its parent block {b}"

/-- The value of an operand slot, if it exists, has the slot in its use list. -/
def unregisteredOperand (g : Graph V) (o : Op) (d : OpData V) (slot : Value × Nat) :
    List RuleFailure :=
  let registered := match g.values.find? slot.1 with
    | none => true
    | some v => decide (⟨o, slot.2⟩ ∈ v.uses)
  report "use-list" (!registered)
    s!"operand #{slot.2} of {d.name} is missing from the use list of {slot.1}"

/-- The slot of a use holds the value. -/
def refersTo (g : Graph V) (v : Value) (u : Use) : Bool :=
  match g.ops.find? u.user with
  | none => false
  | some d => d.operands[u.index]? == some v

/-- The uses of a value whose slots do not hold it. -/
def staleUses (g : Graph V) (v : Value) : Except Fault (List RuleFailure) := do
  let uses := (← g.value v).uses
  return uses.flatMap fun u =>
    report "use-list" (!g.refersTo v u)
      s!"use of {v} at operand #{u.index} of {u.user} does not refer to it"

/-- A symbol table entry names a symbol of that name. -/
def brokenSymbol (g : Graph V) (entry : String × Op) : List RuleFailure :=
  match g.ops.find? entry.2 with
  | none =>
    [⟨"symbol-table", s!"symbol `{entry.1}` refers to operation {entry.2} that does not exist"⟩]
  | some d =>
    report "symbol-table" (!d.hasTrait .symbol || d.symbolName? != some entry.1)
      s!"symbol `{entry.1}` is not defined by operation {entry.2}"

/-- The argument at a position of a block names both as its origin, and its
uses refer to it. -/
def brokenArgument (g : Graph V) (b : Block) (arg : Value × Nat) :
    Except Fault (List RuleFailure) := do
  let d ← g.value arg.1
  let stale ← g.staleUses arg.1
  return report "argument-index" (d.origin != .argument (some b) (some arg.2))
    s!"argument #{arg.2} of block {b} has a wrong owner or index" ++ stale

/-! ## The walk -/

/-- The failures of an operation that a block lists: its link back to the
block, the place of a terminator, and then whatever `visit` finds. -/
def listedFailures (g : Graph V) (visit : Op → Except Fault (List RuleFailure))
    (b : Block) (last : Option Op) (o : Op) : Except Fault (List RuleFailure) := do
  let d ← g.op o
  let inner ← visit o
  return report "op-parent" (d.parent != some b)
      s!"{d.name} {o} in block {b} does not point back to it" ++
    report "terminator-last" (d.isTerminator && some o != last)
      s!"terminator {d.name} must be the last operation of block {b}" ++ inner

/-- The failures of a block that a region lists. -/
def blockFailures (g : Graph V) (visit : Op → Except Fault (List RuleFailure))
    (r : Region) (b : Block) : Except Fault (List RuleFailure) := do
  let d ← g.block b
  let args ← d.args.zipIdx.mapM (g.brokenArgument b)
  let ops ← d.ops.items.mapM (g.listedFailures visit b d.ops.back?)
  return report "block-owner" (d.owner != some r)
    s!"block {b} of region {r} does not point back to it" ++ args.flatten ++ ops.flatten

/-- The failures of a region of an operation. A missing one is reported by a
rule of the operation, and not again. -/
def regionFailures (g : Graph V) (visit : Op → Except Fault (List RuleFailure))
    (o : Op) (r : Region) : Except Fault (List RuleFailure) := do
  match g.regions.find? r with
  | none => return []
  | some d =>
    let blocks ← d.blocks.items.mapM (g.blockFailures visit r)
    return report "region-parent" (d.parent != some o)
      s!"region {r} of {o} does not point back to it" ++ blocks.flatten

variable [OpVerifier V]

/-- The failures of an operation and what is nested in it, to a number of levels. -/
def failuresWithin (g : Graph V) : Nat → Op → Except Fault (List RuleFailure)
  | 0, _ => .error .endlessNesting
  | levels + 1, o => do
    let d ← g.op o
    let rules ← (OpView.mk g o d).failures
    let results ← d.results.mapM g.staleUses
    let regions ← d.regions.mapM (g.regionFailures (g.failuresWithin levels) o)
    let symbols := match d.symbols with
      | none => []
      | some t => t.entries.flatMap g.brokenSymbol
    return rules ++ g.unlistedInParent o d ++
      d.operands.zipIdx.flatMap (g.unregisteredOperand o d) ++
      results.flatten ++ regions.flatten ++ symbols

/-- The failures of an operation and everything nested in it. -/
def failures (g : Graph V) (o : Op) : Except Fault (List RuleFailure) :=
  g.failuresWithin (g.ops.size + 1) o

/-- Verifies an operation and everything nested in it. -/
def verify (g : Graph V) (o : Op) : Except Fault (Option ValidationError) := do
  return ValidationError.ofFailures (← g.failures o)

end Graph
end RegionIR
