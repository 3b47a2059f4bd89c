import RegionIR.Edit.Placement

/-!
# Erasure

An operation is erased together with everything nested in it. This is
refused while something outside still uses what would be gone: a result or
an argument by an operand slot, or a block as a successor. Symbols that are
gone leave the tables that stay.
-/

namespace RegionIR

namespace Graph

variable {V : Type}

/-- The values that a subtree produces: results first, then arguments. -/
def producedBy (g : Graph V) (t : Subtree) : Except Fault (List Value) := do
  let results ← t.ops.mapM fun o => do return (← g.op o).results
  let args ← t.blocks.mapM fun b => do return (← g.block b).args
  return results.flatten ++ args.flatten

/-- The first use of one of the values by an operation that is not inside. -/
def outsideUse? (g : Graph V) (inside : List Op) : List Value → Except Fault (Option EditError)
  | [] => .ok none
  | v :: rest => do
    match (← g.value v).uses.find? fun u => decide (u.user ∉ inside) with
    | some u => return some (.inUse v u.user)
    | none => g.outsideUse? inside rest

/-- The first operation that is not inside but has one of the blocks among
its successors. -/
def outsideBranch? (g : Graph V) (t : Subtree) : Option EditError :=
  g.ops.entries.findSome? fun e =>
    if e.1 ∈ t.ops then none
    else (e.2.successors.find? fun b => decide (b ∈ t.blocks)).map fun b => .blockInUse b e.1

/-- The tables of operations that stay, without the symbols that go. -/
def withoutSymbols (g : Graph V) (inside : List Op) : Graph V :=
  { g with
    ops := g.ops.mapValues fun o d =>
      if o ∈ inside then d
      else
        { d with symbols := d.symbols.map fun t => t.filterValues fun s => decide (s ∉ inside) } }

/-- The use lists without the operand slots of an operation. -/
def withoutUsesBy (g : Graph V) (o : Op) (d : OpData V) : Graph V :=
  { g with
    values := d.operands.zipIdx.foldl
      (fun values v => values.modify v.1 fun e => e.dropUse ⟨o, v.2⟩) g.values }

/-- The graph without the entries of a subtree and the values it produces. -/
def withoutEntries (g : Graph V) (t : Subtree) (produced : List Value) : Graph V where
  values := g.values.filterKeys fun v => decide (v ∉ produced)
  ops := g.ops.filterKeys fun o => decide (o ∉ t.ops)
  blocks := g.blocks.filterKeys fun b => decide (b ∉ t.blocks)
  regions := g.regions.filterKeys fun r => decide (r ∉ t.regions)

end Graph

namespace Edit

variable {V : Type}

/-- Erases an operation with everything nested in it. -/
def eraseOp (o : Op) : Edit V Unit := do
  let t ← ask fun g => g.subtree o
  let produced ← ask fun g => g.producedBy t
  .refuseIf (← ask fun g => g.outsideUse? t.ops produced)
  .refuseIf ((← graph).outsideBranch? t)
  modifyGraph fun g => g.withoutSymbols t.ops
  match (← ask fun g => g.op o).parent with
  | none => pure ()
  | some b => detachOp b o
  .forEach t.ops fun o => do
    let d ← ask fun g => g.op o
    modifyGraph fun g => g.withoutUsesBy o d
  modifyGraph fun g => g.withoutEntries t produced

end Edit

end RegionIR
