import RegionIR.Proofs.Edit.Create
import RegionIR.Proofs.Edit.Erase
import RegionIR.Proofs.Edit.Module
import RegionIR.Proofs.Edit.Operand
import RegionIR.Proofs.Edit.Placement

/-!
# Reachable graphs are sound

A graph starts empty and goes through any number of edits, in any order and
with any arguments.  An edit that is refused leaves a graph behind like one
that is done, while a fault ends the run.  The counters of the handles are
shared with other graphs, so they may advance between any two edits.  They are
words, and a run that asks a counter at its end for a handle ends there.

Each edit is a series of changes, which keeps a graph sound; what is left is
one induction on the run.  Single entries written without checks are no part
of a run.

## Main results

* `Command` — the public edits with their arguments.
* `Reachable` — the stores that runs of commands lead to.
* `Reachable.sound` — they are sound.
* `Reachable.inRange` — and no counter is past its end.
-/

namespace RegionIR

/-- A public edit with its arguments. -/
inductive Command (V : Type) where
  | newBlock
  | newBlockWith (types : List Ty)
  | addArgument (b : Block) (ty : Ty)
  | insertArgument (b : Block) (i : Nat) (ty : Ty)
  | removeArgument (b : Block) (arg : Value)
  | removeArgumentAt (b : Block) (i : Nat)
  | insertOp (b : Block) (i : Nat) (o : Op)
  | pushOpFront (b : Block) (o : Op)
  | pushOpBack (b : Block) (o : Op)
  | removeOp (b : Block) (o : Op)
  | spliceOp (b : Block) (o : Op) (target : Block) (i : Nat)
  | newRegion
  | newRegionWith (blocks : List Block)
  | insertBlock (r : Region) (i : Nat) (b : Block)
  | pushBlockFront (r : Region) (b : Block)
  | pushBlockBack (r : Region) (b : Block)
  | removeBlock (r : Region) (b : Block)
  | clearRegion (r : Region)
  | create (request : OpRequest V)
  | createOf (definition : OpDef V) (operands : List Value) (attrs : AttributeMap)
      (regions : List Region) (parent : Option Block)
  | setOperand (o : Op) (i : Nat) (v : Value)
  | replaceAllUses (old new : Value)
  | eraseOp (o : Op)
  | insertSymbol (table symbol : Op)
  | removeSymbol (table : Op) (name : String)
  | newModule
  | moduleBodyOrNew (m : Op)
  | appendToModule (m o : Op)

variable {V : Type} [OpVerifier V]

namespace Command

/-- The edit of a command, without its result. -/
def edit : Command V → Edit V Unit
  | .newBlock => do let _ ← Edit.newBlock
  | .newBlockWith types => do let _ ← Edit.newBlockWith types
  | .addArgument b ty => do let _ ← Edit.addArgument b ty
  | .insertArgument b i ty => do let _ ← Edit.insertArgument b i ty
  | .removeArgument b arg => Edit.removeArgument b arg
  | .removeArgumentAt b i => do let _ ← Edit.removeArgumentAt b i
  | .insertOp b i o => Edit.insertOp b i o
  | .pushOpFront b o => Edit.pushOpFront b o
  | .pushOpBack b o => Edit.pushOpBack b o
  | .removeOp b o => Edit.removeOp b o
  | .spliceOp b o target i => Edit.spliceOp b o target i
  | .newRegion => do let _ ← Edit.newRegion
  | .newRegionWith blocks => do let _ ← Edit.newRegionWith blocks
  | .insertBlock r i b => Edit.insertBlock r i b
  | .pushBlockFront r b => Edit.pushBlockFront r b
  | .pushBlockBack r b => Edit.pushBlockBack r b
  | .removeBlock r b => Edit.removeBlock r b
  | .clearRegion r => Edit.clearRegion r
  | .create request => do let _ ← Edit.create request
  | .createOf definition operands attrs regions parent => do
    let _ ← Edit.createOf definition operands attrs regions parent
  | .setOperand o i v => Edit.setOperand o i v
  | .replaceAllUses old new => Edit.replaceAllUses old new
  | .eraseOp o => Edit.eraseOp o
  | .insertSymbol table symbol => Edit.insertSymbol table symbol
  | .removeSymbol table name => do let _ ← Edit.removeSymbol table name
  | .newModule => do let _ ← Edit.newModule
  | .moduleBodyOrNew m => do let _ ← Edit.moduleBodyOrNew m
  | .appendToModule m o => Edit.appendToModule m o

open Edit

/-- Every command but one leaves no trace when it is refused. -/
theorem atomicFrom {s : Store V} (hs : s.Sound) {c : Command V}
    (hc : ∀ m o, c ≠ .appendToModule m o) : AtomicFrom c.edit s := by
  cases c with
  | newBlock => exact (grantedFrom_newBlock s).atomicFrom.discard
  | newBlockWith types => exact (grantedFrom_newBlockWith hs types).atomicFrom.discard
  | addArgument b ty => exact (grantedFrom_addArgument s b ty).atomicFrom.discard
  | insertArgument b i ty => exact (atomicFrom_insertArgument s b i ty).discard
  | removeArgument b arg => exact atomicFrom_removeArgument hs b arg
  | removeArgumentAt b i => exact (atomicFrom_removeArgumentAt hs b i).discard
  | insertOp b i o => exact atomicFrom_insertOp hs b i o
  | pushOpFront b o => exact atomicFrom_pushOpFront hs b o
  | pushOpBack b o => exact atomicFrom_pushOpBack hs b o
  | removeOp b o => exact atomicFrom_removeOp b o
  | spliceOp b o target i => exact atomicFrom_spliceOp hs b o target i
  | newRegion => exact (grantedFrom_newRegion s).atomicFrom.discard
  | newRegionWith blocks => exact (atomicFrom_newRegionWith hs blocks).discard
  | insertBlock r i b => exact atomicFrom_insertBlock hs r i b
  | pushBlockFront r b => exact atomicFrom_pushBlockFront hs r b
  | pushBlockBack r b => exact atomicFrom_pushBlockBack hs r b
  | removeBlock r b => exact atomicFrom_removeBlock r b
  | clearRegion r => exact (grantedFrom_clearRegion hs r).atomicFrom
  | create request => exact (atomicFrom_create hs request).discard
  | createOf definition operands attrs regions parent =>
      exact (atomicFrom_createOf hs definition operands attrs regions parent).discard
  | setOperand o i v => exact atomicFrom_setOperand o i v
  | replaceAllUses old new => exact (grantedFrom_replaceAllUses hs old new).atomicFrom
  | eraseOp o => exact atomicFrom_eraseOp hs o
  | insertSymbol table symbol => exact atomicFrom_insertSymbol table symbol
  | removeSymbol table name => exact (atomicFrom_removeSymbol table name).discard
  | newModule => exact (atomicFrom_newModule hs).discard
  | moduleBodyOrNew m => exact (grantedFrom_moduleBodyOrNew hs m).atomicFrom.discard
  | appendToModule m o => exact absurd rfl (hc m o)

/-- Every command is a series of changes, done or refused. -/
theorem stepsFrom {s : Store V} (hs : s.Sound) (c : Command V) : StepsFrom c.edit s := by
  by_cases hc : ∃ m o, c = .appendToModule m o
  · obtain ⟨m, o, rfl⟩ := hc
    exact (ends_appendToModule hs m o).mono (fun _ _ hs' => hs') fun _ _ hs' => hs'.1
  · exact (atomicFrom hs fun m o heq => hc ⟨m, o, heq⟩).stepsFrom

end Command

/-- The stores that runs of commands lead to, from the empty graph. -/
inductive Reachable : Store V → Prop where
  | start (next : NextHandles) (h : next.InRange) : Reachable ⟨.empty, next⟩
  /-- Other graphs have drawn handles. -/
  | elsewhere {g : Graph V} {n n' : NextHandles} (h : Reachable ⟨g, n⟩) (hle : n ≤ n') :
      Reachable ⟨g, n'⟩
  | done {s s' : Store V} (h : Reachable s) (c : Command V)
      (hc : c.edit.run s = .done () s') : Reachable s'
  | refused {s s' : Store V} (h : Reachable s) (c : Command V) {e : EditError}
      (hc : c.edit.run s = .refused e s') : Reachable s'

namespace Reachable

/-- All reachable stores are sound. -/
theorem sound {s : Store V} (h : Reachable s) : s.Sound := by
  induction h with
  | start next _ => exact Graph.Sound.empty next
  | elsewhere _ hle ih => exact Graph.Sound.advance ih hle
  | done _ c hc ih =>
      have hsteps := c.stepsFrom ih
      rw [Edit.StepsFrom, hc] at hsteps
      exact ih.leads hsteps
  | refused _ c hc ih =>
      have hsteps := c.stepsFrom ih
      rw [Edit.StepsFrom, hc] at hsteps
      exact ih.leads hsteps

/-- The counters never leave their range. -/
theorem inRange {s : Store V} (h : Reachable s) : s.next.InRange := by
  induction h with
  | start _ hnext => exact hnext
  | elsewhere _ hle ih => exact hle.inRange ih
  | done hs c hc ih =>
      have hsteps := c.stepsFrom hs.sound
      rw [Edit.StepsFrom, hc] at hsteps
      exact hsteps.next_le.inRange ih
  | refused hs c hc ih =>
      have hsteps := c.stepsFrom hs.sound
      rw [Edit.StepsFrom, hc] at hsteps
      exact hsteps.next_le.inRange ih

end Reachable

/-! ## Runs that can be computed -/

namespace Command

/-- The store after a run of commands; what follows a fault is not run. -/
def play : List (Command V) → Store V → Store V
  | [], s => s
  | c :: rest, s =>
    match c.edit.run s with
    | .done () s' => play rest s'
    | .refused _ s' => play rest s'
    | .fault _ => s

end Command

theorem Reachable.play {s : Store V} (h : Reachable s) (commands : List (Command V)) :
    Reachable (Command.play commands s) := by
  induction commands generalizing s with
  | nil => exact h
  | cons c rest ih =>
      unfold Command.play
      cases hc : c.edit.run s with
      | done _ s' => exact ih (h.done c hc)
      | refused e s' => exact ih (h.refused c hc)
      | fault _ => exact h

end RegionIR
