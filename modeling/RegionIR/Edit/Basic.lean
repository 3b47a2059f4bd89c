import RegionIR.Action
import RegionIR.Edit.Error
import RegionIR.Graph.Nesting
import RegionIR.Number.Checked

/-!
# Edits

An edit is an action on a graph and the counters of its handles. This module
holds the steps that edits are made of: new handles, and changes of single
entries. A step that changes an entry expects the entry to be there.
-/

namespace RegionIR

/-- A graph and the numbers of the next handles. -/
structure Store (V : Type) where
  graph : Graph V := {}
  next : NextHandles := {}
  deriving DecidableEq, Inhabited

/-- An action on a store that may be refused. -/
abbrev Edit (V : Type) : Type → Type := Action (Store V) EditError

namespace Edit

variable {V : Type}

/-- The present graph. -/
def graph : Edit V (Graph V) := do return (← .get).graph

def modifyGraph (f : Graph V → Graph V) : Edit V Unit :=
  .modify fun s => { s with graph := f s.graph }

/-- The answer of a query on the present graph. -/
def ask {α : Type} (f : Graph V → Except Fault α) : Edit V α := .read fun s => f s.graph

/-! ## New handles -/

/-- A new handle of a kind. A counter at its end has none, and to ask it for one is a fault. -/
def fresh (k : EntityKind) : Edit V (Handle k) := do
  let s ← .get
  let num ← .ofExcept (Checked.succ (s.next.of k))
  .modify fun s => { s with next := s.next.set num k }
  return ⟨s.next.of k⟩

def freshValue : Edit V Value := fresh .value

def freshOp : Edit V Op := fresh .op

def freshBlock : Edit V Block := fresh .block

def freshRegion : Edit V Region := fresh .region

/-! ## Entries -/

def putValue (v : Value) (d : ValueData) : Edit V Unit :=
  modifyGraph fun g => { g with values := g.values.insert v d }

def putOp (o : Op) (d : OpData V) : Edit V Unit :=
  modifyGraph fun g => { g with ops := g.ops.insert o d }

def putBlock (b : Block) (d : BlockData) : Edit V Unit :=
  modifyGraph fun g => { g with blocks := g.blocks.insert b d }

def putRegion (r : Region) (d : RegionData) : Edit V Unit :=
  modifyGraph fun g => { g with regions := g.regions.insert r d }

def dropValue (v : Value) : Edit V Unit :=
  modifyGraph fun g => { g with values := g.values.erase v }

def dropRegion (r : Region) : Edit V Unit :=
  modifyGraph fun g => { g with regions := g.regions.erase r }

/-- Changes the entry of a value, which has to be there. -/
def updateValue (v : Value) (f : ValueData → ValueData) : Edit V Unit := do
  let d ← ask fun g => g.value v
  putValue v (f d)

/-- Changes the entry of an operation, which has to be there. -/
def updateOp (o : Op) (f : OpData V → OpData V) : Edit V Unit := do
  let d ← ask fun g => g.op o
  putOp o (f d)

/-- Changes the entry of a block, which has to be there. -/
def updateBlock (b : Block) (f : BlockData → BlockData) : Edit V Unit := do
  let d ← ask fun g => g.block b
  putBlock b (f d)

/-- Changes the entry of a region, which has to be there. -/
def updateRegion (r : Region) (f : RegionData → RegionData) : Edit V Unit := do
  let d ← ask fun g => g.region r
  putRegion r (f d)

end Edit

end RegionIR
