import RegionIR.Edit.Basic

/-!
# Unchecked edits

Steps that write one end of a link, or one field of an entry, and leave all
else as it is. They make the broken graphs that verification is there for.
An entry that is written has to be there.
-/

namespace RegionIR.Edit

variable {V : Type}

/-- Empties the use list of a value; the result is what was in it. -/
def takeUses (v : Value) : Edit V (List Use) := do
  let uses := (← ask fun g => g.value v).uses
  updateValue v fun d => { d with uses := [] }
  return uses

/-- Registers a slot with a value, whatever is in the slot. -/
def addUseEdge (v : Value) (u : Use) : Edit V Unit := updateValue v fun d => d.addUse u

/-- Drops the first registration of a slot with a value. -/
def dropUseEdge (v : Value) (u : Use) : Edit V Unit := updateValue v fun d => d.dropUse u

def setOrigin (v : Value) (o : Origin) : Edit V Unit := updateValue v fun d => d.withOrigin o

/-- Fields of an operation that are to be overwritten. -/
structure OpPatch where
  name : Option String := none
  operands : Option (List Value) := none
  results : Option (List Value) := none
  regions : Option (List Region) := none
  successors : Option (List Block) := none
  traits : Option (List OpTrait) := none
  /-- The new parent, which may be none. -/
  parent : Option (Option Block) := none

/-- The entry with the given fields in the place of its own. -/
def OpPatch.apply (p : OpPatch) (d : OpData V) : OpData V :=
  { d with
    name := p.name.getD d.name
    operands := p.operands.getD d.operands
    results := p.results.getD d.results
    regions := p.regions.getD d.regions
    successors := p.successors.getD d.successors
    traits := p.traits.getD d.traits
    parent := p.parent.getD d.parent }

def patchOp (o : Op) (p : OpPatch) : Edit V Unit := updateOp o p.apply

/-- Sets an attribute of an operation, or drops it. -/
def setAttribute (o : Op) (name : String) (a : Option Attribute) : Edit V Unit :=
  updateOp o fun d =>
    { d with attrs := match a with
      | some a => d.attrs.insert name a
      | none => d.attrs.erase name }

/-- Binds a name in the symbol table of an operation, which gets one if it has none. -/
def putSymbol (table : Op) (name : String) (symbol : Op) : Edit V Unit :=
  updateOp table fun d =>
    { d with symbols := some ((d.symbols.getD .empty).insert name symbol) }

def setOwner (b : Block) (owner : Option Region) : Edit V Unit :=
  updateBlock b fun d => { d with owner := owner }

def setArguments (b : Block) (args : List Value) : Edit V Unit :=
  updateBlock b fun d => { d with args := args }

def setRegionParent (r : Region) (parent : Option Op) : Edit V Unit :=
  updateRegion r fun d => { d with parent := parent }

/-! ## Entries that vanish; the result tells whether there was one -/

def deleteValue (v : Value) : Edit V Bool := do
  let g ← graph
  dropValue v
  return g.values.contains v

def deleteOp (o : Op) : Edit V Bool := do
  let g ← graph
  modifyGraph fun g => { g with ops := g.ops.erase o }
  return g.ops.contains o

def deleteBlock (b : Block) : Edit V Bool := do
  let g ← graph
  modifyGraph fun g => { g with blocks := g.blocks.erase b }
  return g.blocks.contains b

def deleteRegion (r : Region) : Edit V Bool := do
  let g ← graph
  dropRegion r
  return g.regions.contains r

end RegionIR.Edit
