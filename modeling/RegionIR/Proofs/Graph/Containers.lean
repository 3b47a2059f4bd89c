import RegionIR.Proofs.Graph.Views

/-!
# Empty blocks and regions

A new block or region has no entries and no links.  The views of a missing
handle are empty too, so its arrival is not seen by any view.

## Main results

* `Graph.opsIn_addBlock`, `Graph.blocksIn_addRegion`, … — each view is as before.
-/

namespace RegionIR.Graph

variable {V : Type}

/-- Puts a block without arguments and operations into the graph. -/
def addBlock (g : Graph V) (b : Block) : Graph V := { g with blocks := g.blocks.insert b {} }

/-- Puts a region without blocks into the graph. -/
def addRegion (g : Graph V) (r : Region) : Graph V := { g with regions := g.regions.insert r {} }

section AddBlock

variable {g : Graph V} {b : Block} (hb : g.blocks.find? b = none)
include hb

theorem opsIn_addBlock (b' : Block) : (g.addBlock b).opsIn b' = g.opsIn b' := by
  unfold opsIn addBlock
  rw [Table.find?_insert]
  by_cases h : b = b'
  · rw [if_pos h, ← h, hb]
    rfl
  · rw [if_neg h]

theorem argsOf_addBlock (b' : Block) : (g.addBlock b).argsOf b' = g.argsOf b' := by
  unfold argsOf addBlock
  rw [Table.find?_insert]
  by_cases h : b = b'
  · rw [if_pos h, ← h, hb]
    rfl
  · rw [if_neg h]

theorem owner?_addBlock (b' : Block) : (g.addBlock b).owner? b' = g.owner? b' := by
  unfold owner? addBlock
  rw [Table.find?_insert]
  by_cases h : b = b'
  · rw [if_pos h, ← h, hb]
    rfl
  · rw [if_neg h]

end AddBlock

section AddRegion

variable {g : Graph V} {r : Region} (hr : g.regions.find? r = none)
include hr

theorem blocksIn_addRegion (r' : Region) : (g.addRegion r).blocksIn r' = g.blocksIn r' := by
  unfold blocksIn addRegion
  rw [Table.find?_insert]
  by_cases h : r = r'
  · rw [if_pos h, ← h, hr]
    rfl
  · rw [if_neg h]

theorem holder?_addRegion (r' : Region) : (g.addRegion r).holder? r' = g.holder? r' := by
  unfold holder? addRegion
  rw [Table.find?_insert]
  by_cases h : r = r'
  · rw [if_pos h, ← h, hr]
    rfl
  · rw [if_neg h]

end AddRegion

end RegionIR.Graph
