import RegionIR.Edit.Basic

/-!
# Operations in blocks

An operation is listed by at most one block, which it names as its parent.
Placing an operation checks first and changes the lists only if nothing
speaks against it.
-/

namespace RegionIR.Edit

variable {V : Type}

/-- Links an operation into a block, at a position or at the end. -/
def attachOp (b : Block) (place : Option Nat) (o : Op) : Edit V Unit := do
  let ops := (← ask fun g => g.block b).ops
  let ops ← .ofExcept (match place with
    | some i => ops.insertAt i o
    | none => ops.pushBack o)
  updateBlock b fun d => { d with ops := ops }
  updateOp o fun d => { d with parent := some b }

/-- Unlinks an operation from a block. -/
def detachOp (b : Block) (o : Op) : Edit V Unit := do
  updateBlock b fun d => { d with ops := d.ops.remove o }
  updateOp o fun d => { d with parent := none }

/-- The number of operations that a block has apart from `o`. -/
def othersInBlock (b : Block) (o : Op) : Edit V Nat := do
  let length := (← ask fun g => g.block b).ops.length
  if (← ask fun g => g.op o).parent = some b then .ofExcept (Checked.sub length 1)
  else return length

/-- Refuses a place that an operation can not take, once it is detached. -/
def checkPlace (b : Block) (i : Nat) (o : Op) : Edit V Unit := do
  let length ← othersInBlock b o
  if length < i then
    .refuse (.outOfRange .operations i length)
  else
    let regions := (← ask fun g => g.op o).regions
    if ← ask fun g => g.blockInside b regions then
      .refuse (.opCycle o b)

/-- Inserts an operation that is in no block at a position of a block. -/
def insertOp (b : Block) (i : Nat) (o : Op) : Edit V Unit := do
  match (← ask fun g => g.op o).parent with
  | some parent => .refuse (.opAlreadyOwned o parent)
  | none =>
    checkPlace b i o
    attachOp b (some i) o

def pushOpFront (b : Block) (o : Op) : Edit V Unit := insertOp b 0 o

def pushOpBack (b : Block) (o : Op) : Edit V Unit := do
  insertOp b (← ask fun g => g.block b).ops.length o

/-- Takes an operation out of a block. It stays in the graph. -/
def removeOp (b : Block) (o : Op) : Edit V Unit := do
  if (← ask fun g => g.op o).parent = some b then detachOp b o
  else .refuse (.opNotOwned o b)

/-- Moves an operation from a block to a position of a target block; the
position counts without the operation itself. -/
def spliceOp (b : Block) (o : Op) (target : Block) (i : Nat) : Edit V Unit := do
  if (← ask fun g => g.op o).parent = some b then
    checkPlace target i o
    detachOp b o
    attachOp target (some i) o
  else .refuse (.opNotOwned o b)

end RegionIR.Edit
