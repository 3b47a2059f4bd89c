import RegionIR.Edit.Basic

/-!
# Symbol tables

An operation with a symbol table binds names to the operations that define
them. A symbol is entered under its own name, and a name is bound once.
-/

namespace RegionIR.Edit

variable {V : Type}

/-- The symbol table of an operation. -/
def symbolTable (table : Op) : Edit V (Table String Op) := do
  match (← ask fun g => g.op table).symbols with
  | none => .refuse (.noSymbolTable table)
  | some symbols => return symbols

/-- Enters a symbol into a table under its name. -/
def insertSymbol (table symbol : Op) : Edit V Unit := do
  let d ← ask fun g => g.op symbol
  match if d.hasTrait .symbol then d.symbolName? else none with
  | none => .refuse (.notASymbol symbol)
  | some name =>
    let symbols ← symbolTable table
    match symbols.find? name with
    | some existing => .refuse (.duplicateSymbol name existing)
    | none => updateOp table fun d => { d with symbols := some (symbols.insert name symbol) }

/-- Drops a name from a table; the result is what it was bound to. -/
def removeSymbol (table : Op) (name : String) : Edit V (Option Op) := do
  let symbols ← symbolTable table
  updateOp table fun d => { d with symbols := some (symbols.erase name) }
  return symbols.find? name

end RegionIR.Edit
