import RegionIR.Edit.Argument
import RegionIR.Edit.Create
import RegionIR.Edit.Region
import RegionIR.Edit.Symbol

/-!
# Modules

A module is an operation with one region and a symbol table. The first block
of the region is its body; it holds the operations of the top level, and the
table their symbols.
-/

namespace RegionIR

/-- The definition of modules. -/
def OpDef.module {V : Type} : OpDef V where
  name := "builtin.module"
  traits := [.operands 0, .results 0, .regions 1, .symbolTable]

/-- The body of a module, if it has been made. -/
def Graph.moduleBody? {V : Type} (g : Graph V) (m : Op) : Except Fault (Option Block) := do
  match (← g.op m).regions.head? with
  | none => return none
  | some r => return (← g.region r).blocks.front?

namespace Edit

variable {V : Type}

/-- The body of a module, which is made if there is none. -/
def moduleBodyOrNew (m : Op) : Edit V Block := do
  match ← ask fun g => g.moduleBody? m with
  | some b => return b
  | none =>
    match (← ask fun g => g.op m).regions.head? with
    | none => .ofExcept (.error .noRegion)
    | some r =>
      let b ← newBlock
      pushBlockBack r b
      return b

/-- Drops the symbol of an operation that could not be placed. -/
def withdrawSymbol (m : Op) (d : OpData V) : Edit V Unit := do
  match if d.hasTrait .symbol then d.symbolName? else none with
  | none => return ()
  | some name =>
    let _ ← removeSymbol m name

/-- Appends an operation to the body of a module, and enters it into the
symbol table if it is a symbol. -/
def appendToModule (m o : Op) : Edit V Unit := do
  let body ← moduleBodyOrNew m
  let d ← ask fun g => g.op o
  if d.hasTrait .symbol then
    insertSymbol m o
  .orUndo (pushOpBack body o) (do
    withdrawSymbol m (← ask fun g => g.op o))

variable [OpVerifier V]

/-- A new module with an empty region. -/
def newModule : Edit V Op := do
  let r ← newRegion
  .orUndo (createOf .module [] .empty [r] none) (dropRegion r)

end Edit

end RegionIR
