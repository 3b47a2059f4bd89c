import RegionIR.Graph.Basic

/-!
# Walks along the nesting

Two walks go up, from a block or a region through the operation around it;
one goes down and collects all that is nested in an operation. A walk up
stands at a new block (region) with every step unless the nesting has a
cycle, and a walk down passes a new operation with every level. So a bound
of one more than their number is never met in a graph without cycles, and
meeting it is the fault that the walk has no end.
-/

namespace RegionIR

/-- All that is nested in an operation, itself included, in the order of the walk. -/
structure Subtree where
  ops : List Op := []
  blocks : List Block := []
  regions : List Region := []
  deriving DecidableEq, Repr, Inhabited

namespace Subtree

/-- One subtree after the other. -/
def append (s t : Subtree) : Subtree :=
  ⟨s.ops ++ t.ops, s.blocks ++ t.blocks, s.regions ++ t.regions⟩

/-- Subtrees in a row. -/
def concat (l : List Subtree) : Subtree := l.foldr append {}

end Subtree

namespace Graph

variable {V : Type}

/-! ## Upwards -/

/-- The block that holds the operation of a region; a link that leads
nowhere ends the walk. -/
def blockAround? (g : Graph V) (r : Region) : Option Block :=
  ((g.regions.find? r).bind (·.parent)).bind fun o =>
    (g.ops.find? o).bind (·.parent)

/-- A walk up from a block to one of the given regions, in a number of steps. -/
def blockInsideWithin (g : Graph V) (regions : List Region) :
    Nat → Block → Except Fault Bool
  | 0, _ => .error .endlessNesting
  | steps + 1, b =>
    match (g.blocks.find? b).bind (·.owner) with
    | none => .ok false
    | some r =>
      if r ∈ regions then .ok true
      else
        match g.blockAround? r with
        | none => .ok false
        | some b' => g.blockInsideWithin regions steps b'

/-- The block is nested, at any depth, in one of the regions. -/
def blockInside (g : Graph V) (b : Block) (regions : List Region) : Except Fault Bool :=
  g.blockInsideWithin regions (g.blocks.size + 1) b

/-- A walk up from a region to the given block, in a number of steps. Every
link on the way has to lead somewhere. -/
def regionInsideWithin (g : Graph V) (target : Block) : Nat → Region → Except Fault Bool
  | 0, _ => .error .endlessNesting
  | steps + 1, r => do
    match (← g.region r).parent with
    | none => return false
    | some o =>
      match (← g.op o).parent with
      | none => return false
      | some b =>
        if b = target then return true
        else
          match (← g.block b).owner with
          | none => return false
          | some r' => g.regionInsideWithin target steps r'

/-- The region is nested, at any depth, in an operation of the block. -/
def regionInside (g : Graph V) (r : Region) (b : Block) : Except Fault Bool :=
  g.regionInsideWithin b (g.regions.size + 1) r

/-! ## Downwards -/

/-- What is nested in an operation, to a number of levels. -/
def subtreeWithin (g : Graph V) : Nat → Op → Except Fault Subtree
  | 0, _ => .error .endlessNesting
  | levels + 1, o => do
    let regions := (← g.op o).regions
    let inner ← regions.mapM fun r => do
      let blocks := (← g.region r).blocks.items
      let inner ← blocks.mapM fun b => do
        let ops := (← g.block b).ops.items
        let inner ← ops.mapM fun o => g.subtreeWithin levels o
        return { Subtree.concat inner with blocks := b :: (Subtree.concat inner).blocks }
      return { Subtree.concat inner with regions := r :: (Subtree.concat inner).regions }
    return { Subtree.concat inner with ops := o :: (Subtree.concat inner).ops }

/-- What is nested in an operation, at any depth. -/
def subtree (g : Graph V) (o : Op) : Except Fault Subtree :=
  g.subtreeWithin (g.ops.size + 1) o

end Graph

end RegionIR
