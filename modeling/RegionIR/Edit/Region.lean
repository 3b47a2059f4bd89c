import RegionIR.Edit.Basic

/-!
# Regions and their blocks

A block is listed by at most one region, which it names as its owner.
-/

namespace RegionIR.Edit

variable {V : Type}

/-- A new region without blocks. -/
def newRegion : Edit V Region := do
  let r ← freshRegion
  putRegion r {}
  return r

/-- Inserts a block that no region owns at a position of a region. -/
def insertBlock (r : Region) (i : Nat) (b : Block) : Edit V Unit := do
  match (← ask fun g => g.block b).owner with
  | some owner => .refuse (.blockAlreadyOwned b owner)
  | none =>
    let blocks := (← ask fun g => g.region r).blocks
    if blocks.length < i then
      .refuse (.outOfRange .blocks i blocks.length)
    else if ← ask fun g => g.regionInside r b then
      .refuse (.blockCycle b r)
    else
      let blocks ← .ofExcept (blocks.insertAt i b)
      updateRegion r fun d => { d with blocks := blocks }
      updateBlock b fun d => { d with owner := some r }

def pushBlockFront (r : Region) (b : Block) : Edit V Unit := insertBlock r 0 b

def pushBlockBack (r : Region) (b : Block) : Edit V Unit := do
  insertBlock r (← ask fun g => g.region r).blocks.length b

/-- Unlinks a block from a region. -/
def detachBlock (r : Region) (b : Block) : Edit V Unit := do
  updateRegion r fun d => { d with blocks := d.blocks.remove b }
  updateBlock b fun d => { d with owner := none }

/-- Takes a block out of a region. It stays in the graph. -/
def removeBlock (r : Region) (b : Block) : Edit V Unit := do
  if (← ask fun g => g.block b).owner = some r then detachBlock r b
  else .refuse (.blockNotOwned b r)

/-- Takes all blocks out of a region. -/
def clearRegion (r : Region) : Edit V Unit := do
  let blocks := (← ask fun g => g.region r).blocks.items
  .forEach blocks (detachBlock r)

/-- A new region with the given blocks, in order. If one of them can not be
placed, those before it are released and the region is dropped again. -/
def newRegionWith (blocks : List Block) : Edit V Region := do
  let r ← newRegion
  .orUndo (.forEach blocks (pushBlockBack r)) (do
    clearRegion r
    dropRegion r)
  return r

end RegionIR.Edit
