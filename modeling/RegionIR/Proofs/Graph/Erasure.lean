import RegionIR.Edit.Erase
import RegionIR.Proofs.Graph.Placement

/-!
# Cutting out a subtree

The graph that is left after an erasure, said in one go: the entries of the
subtree and the values it produces are gone, use lists and symbol tables have
lost what the subtree put into them, and the root has left its block.

An erasure finds its subtree by a walk.  Here the walk does not matter, only
that its result is closed downwards and hangs together upwards (`Hangs`).

## Main results

* `Graph.uses?_prune`, `Graph.slot?_prune`, `Graph.mem_opsIn_prune`, … — each
  view of the graph that is left.
-/

namespace RegionIR.Graph

variable {V : Type}

/-- A subtree holds all that is nested in its entries, and nothing that hangs elsewhere. -/
structure Hangs (g : Graph V) (o : Op) (t : Subtree) : Prop where
  root : o ∈ t.ops
  regions_down : ∀ {o' r}, o' ∈ t.ops → r ∈ g.regionsOf o' → r ∈ t.regions
  blocks_down : ∀ {r b}, r ∈ t.regions → b ∈ g.blocksIn r → b ∈ t.blocks
  ops_down : ∀ {b o'}, b ∈ t.blocks → o' ∈ g.opsIn b → o' ∈ t.ops
  regions_up : ∀ {r}, r ∈ t.regions → ∃ o' ∈ t.ops, r ∈ g.regionsOf o'
  blocks_up : ∀ {b}, b ∈ t.blocks → ∃ r ∈ t.regions, b ∈ g.blocksIn r
  ops_up : ∀ {o'}, o' ∈ t.ops → o' = o ∨ ∃ b ∈ t.blocks, o' ∈ g.opsIn b

/-- The graph without a subtree, its root `o` and the values it produces. -/
def prune (g : Graph V) (o : Op) (t : Subtree) (produced : List Value) : Graph V where
  values := (g.values.mapValues fun _ d =>
    { d with uses := d.uses.filter fun u => decide (u.user ∉ t.ops) }).filterKeys
      fun v => decide (v ∉ produced)
  ops := (g.withoutSymbols t.ops).ops.filterKeys fun o' => decide (o' ∉ t.ops)
  blocks := (g.blocks.mapValues fun b d =>
    if g.parent? o = some b then { d with ops := d.ops.remove o } else d).filterKeys
      fun b => decide (b ∉ t.blocks)
  regions := g.regions.filterKeys fun r => decide (r ∉ t.regions)

variable (g : Graph V) (o : Op) (t : Subtree) (produced : List Value)

/-! ## Entries -/

theorem find?_ops_prune (o' : Op) :
    (g.prune o t produced).ops.find? o' =
      if o' ∈ t.ops then none
      else (g.ops.find? o').map fun d =>
        { d with
          symbols := d.symbols.map fun s => s.filterValues fun x => decide (x ∉ t.ops) } := by
  unfold prune withoutSymbols
  rw [Table.find?_filterKeys, Table.find?_mapValues]
  by_cases h : o' ∈ t.ops <;> simp [h]

theorem find?_blocks_prune (b : Block) :
    (g.prune o t produced).blocks.find? b =
      if b ∈ t.blocks then none
      else (g.blocks.find? b).map fun d =>
        if g.parent? o = some b then { d with ops := d.ops.remove o } else d := by
  unfold prune
  rw [Table.find?_filterKeys, Table.find?_mapValues]
  by_cases h : b ∈ t.blocks <;> simp [h]

theorem find?_regions_prune (r : Region) :
    (g.prune o t produced).regions.find? r =
      if r ∈ t.regions then none else g.regions.find? r := by
  unfold prune
  rw [Table.find?_filterKeys]
  by_cases h : r ∈ t.regions <;> simp [h]

theorem find?_values_prune (v : Value) :
    (g.prune o t produced).values.find? v =
      if v ∈ produced then none
      else (g.values.find? v).map fun d =>
        { d with uses := d.uses.filter fun u => decide (u.user ∉ t.ops) } := by
  unfold prune
  rw [Table.find?_filterKeys, Table.find?_mapValues]
  by_cases h : v ∈ produced <;> simp [h]

/-! ## Views -/

theorem uses?_prune (v : Value) :
    (g.prune o t produced).uses? v =
      if v ∈ produced then none
      else (g.uses? v).map fun l => l.filter fun u => decide (u.user ∉ t.ops) := by
  unfold uses?
  rw [find?_values_prune]
  by_cases h : v ∈ produced
  · simp [h]
  · rw [if_neg h, if_neg h, Option.map_map, Option.map_map]
    rfl

theorem origin?_prune (v : Value) :
    (g.prune o t produced).origin? v = if v ∈ produced then none else g.origin? v := by
  unfold origin?
  rw [find?_values_prune]
  by_cases h : v ∈ produced
  · simp [h]
  · rw [if_neg h, if_neg h, Option.map_map]
    rfl

theorem slot?_prune (u : Use) :
    (g.prune o t produced).slot? u = if u.user ∈ t.ops then none else g.slot? u := by
  unfold slot?
  rw [find?_ops_prune]
  by_cases h : u.user ∈ t.ops
  · simp [h]
  · rw [if_neg h, if_neg h, Option.bind_map]
    rfl

theorem parent?_prune (o' : Op) :
    (g.prune o t produced).parent? o' = if o' ∈ t.ops then none else g.parent? o' := by
  unfold parent?
  rw [find?_ops_prune]
  by_cases h : o' ∈ t.ops
  · simp [h]
  · rw [if_neg h, if_neg h, Option.bind_map]
    rfl

theorem regionsOf_prune (o' : Op) :
    (g.prune o t produced).regionsOf o' = if o' ∈ t.ops then [] else g.regionsOf o' := by
  unfold regionsOf
  rw [find?_ops_prune]
  by_cases h : o' ∈ t.ops
  · simp [h]
  · rw [if_neg h, if_neg h, Option.map_map]
    rfl

theorem resultsOf_prune (o' : Op) :
    (g.prune o t produced).resultsOf o' = if o' ∈ t.ops then [] else g.resultsOf o' := by
  unfold resultsOf
  rw [find?_ops_prune]
  by_cases h : o' ∈ t.ops
  · simp [h]
  · rw [if_neg h, if_neg h, Option.map_map]
    rfl

theorem owner?_prune (b : Block) :
    (g.prune o t produced).owner? b = if b ∈ t.blocks then none else g.owner? b := by
  unfold owner?
  rw [find?_blocks_prune]
  by_cases h : b ∈ t.blocks
  · simp [h]
  · rw [if_neg h, if_neg h, Option.bind_map]
    congr 1
    funext d
    show (if _ then _ else d).owner = d.owner
    split <;> rfl

theorem argsOf_prune (b : Block) :
    (g.prune o t produced).argsOf b = if b ∈ t.blocks then [] else g.argsOf b := by
  unfold argsOf
  rw [find?_blocks_prune]
  by_cases h : b ∈ t.blocks
  · simp [h]
  · rw [if_neg h, if_neg h, Option.map_map]
    congr 2
    funext d
    show (if _ then _ else d).args = d.args
    split <;> rfl

theorem mem_opsIn_prune (b : Block) (o' : Op) :
    o' ∈ (g.prune o t produced).opsIn b ↔
      b ∉ t.blocks ∧ ¬(o' = o ∧ g.parent? o = some b) ∧ o' ∈ g.opsIn b := by
  unfold opsIn
  rw [find?_blocks_prune]
  by_cases h : b ∈ t.blocks
  · simp [h]
  · rw [if_neg h]
    cases hd : g.blocks.find? b with
    | none => simp
    | some d =>
        by_cases hp : g.parent? o = some b
        · simp [h, hp, Roster.mem_remove]
        · simp [h, hp]

theorem holder?_prune (r : Region) :
    (g.prune o t produced).holder? r = if r ∈ t.regions then none else g.holder? r := by
  unfold holder?
  rw [find?_regions_prune]
  by_cases h : r ∈ t.regions <;> simp [h]

theorem blocksIn_prune (r : Region) :
    (g.prune o t produced).blocksIn r = if r ∈ t.regions then [] else g.blocksIn r := by
  unfold blocksIn
  rw [find?_regions_prune]
  by_cases h : r ∈ t.regions <;> simp [h]

end RegionIR.Graph
