import RegionIR.Proofs.Graph.Containers
import RegionIR.Proofs.Graph.Placement

/-!
# Giving up a region

A region can be given up at any time: it leaves the graph, and its blocks are
left without an owner.  Placing a free block in the region beforehand makes no
difference, and neither does taking one out, so what is left is the graph
from before the region was filled.

## Main results

* `Graph.withoutRegion_placeBlock`, `Graph.withoutRegion_takeBlock` — filling
  the region makes no difference.
* `Graph.withoutRegion_eq_dropRegion` — an empty region is just dropped.
* `Graph.dropRegion_addRegion` — dropping a new region.
-/

namespace RegionIR.Graph

variable {V : Type} {g : Graph V} {r : Region} {b : Block}

/-- The graph without the entry of a region, and nothing else changed. -/
def dropRegion (g : Graph V) (r : Region) : Graph V := { g with regions := g.regions.erase r }

/-- The graph without a region, whose blocks are left without an owner. -/
def withoutRegion (g : Graph V) (r : Region) : Graph V :=
  { g with
    blocks := g.blocks.mapValues fun _ d =>
      if d.owner = some r then { d with owner := none } else d
    regions := g.regions.erase r }

/-- Graphs that agree but for a region and for who owns its blocks are equal without it. -/
private theorem withoutRegion_congr {g' : Graph V} (hvalues : g'.values = g.values)
    (hops : g'.ops = g.ops) (hregions : ∀ r', r' ≠ r → g'.regions.find? r' = g.regions.find? r')
    (hblocks : ∀ b, (g'.withoutRegion r).blocks.find? b = (g.withoutRegion r).blocks.find? b) :
    g'.withoutRegion r = g.withoutRegion r := by
  have hsame : g'.regions.erase r = g.regions.erase r := by
    apply Table.ext_find?
    intro r'
    rw [Table.find?_erase, Table.find?_erase]
    by_cases h : r' = r
    · rw [if_pos h, if_pos h]
    · rw [if_neg h, if_neg h, hregions r' h]
  exact (Graph.mk.injEq ..).mpr ⟨hvalues, hops, Table.ext_find? hblocks, hsame⟩

theorem withoutRegion_placeBlock (hfree : g.owner? b = none) (i : Nat) :
    (g.placeBlock r i b).withoutRegion r = g.withoutRegion r := by
  refine withoutRegion_congr rfl rfl (fun r' hr' => ?_) fun b' => ?_
  · simp [placeBlock, Table.find?_modify, hr']
  · simp only [withoutRegion, placeBlock, blocks_modifyBlock, blocks_modifyRegion,
      Table.find?_mapValues, Table.find?_modify]
    by_cases h : b' = b
    · subst h
      cases hd : g.blocks.find? b' with
      | none => simp
      | some d =>
          rw [owner?_eq hd] at hfree
          obtain ⟨args, ops, owner⟩ := d
          cases hfree
          simp
    · simp [h]

theorem withoutRegion_takeBlock (howner : g.owner? b = some r) :
    (g.takeBlock r b).withoutRegion r = g.withoutRegion r := by
  refine withoutRegion_congr rfl rfl (fun r' hr' => ?_) fun b' => ?_
  · simp [takeBlock, Table.find?_modify, hr']
  · simp only [withoutRegion, takeBlock, blocks_modifyBlock, blocks_modifyRegion,
      Table.find?_mapValues, Table.find?_modify]
    by_cases h : b' = b
    · subst h
      cases hd : g.blocks.find? b' with
      | none => simp
      | some d =>
          rw [owner?_eq hd] at howner
          simp [howner]
    · simp [h]

theorem withoutRegion_eq_dropRegion (h : ∀ b, g.owner? b ≠ some r) :
    g.withoutRegion r = g.dropRegion r := by
  have hblocks : (g.blocks.mapValues fun _ d =>
      if d.owner = some r then { d with owner := none } else d) = g.blocks := by
    apply Table.ext_find?
    intro b
    rw [Table.find?_mapValues]
    cases hd : g.blocks.find? b with
    | none => rfl
    | some d =>
        have hother := h b
        rw [owner?_eq hd] at hother
        rw [Option.map_some, if_neg hother]
  unfold withoutRegion dropRegion
  rw [hblocks]

theorem dropRegion_addRegion (hr : g.regions.find? r = none) :
    (g.addRegion r).dropRegion r = g := by
  unfold addRegion dropRegion
  rw [Table.erase_insert hr]

end RegionIR.Graph
