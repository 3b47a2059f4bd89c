import RegionIR.Edit.Basic

/-!
# Operands

An operand slot and the use list of the value in it change together.
-/

namespace RegionIR.Edit

variable {V : Type}

/-- Puts a value into an operand slot and moves the use edge to it. -/
def setOperand (o : Op) (i : Nat) (v : Value) : Edit V Unit := do
  let operands := (← ask fun g => g.op o).operands
  match operands[i]? with
  | none => .refuse (.outOfRange .operands i operands.length)
  | some old =>
    let _ ← ask fun g => g.value v
    updateOp o fun d => { d with operands := d.operands.set i v }
    updateValue old fun d => d.dropUse ⟨o, i⟩
    updateValue v fun d => d.addUse ⟨o, i⟩

/-- Puts a value into the slot of a use, which has to be there. -/
def redirectUse (v : Value) (u : Use) : Edit V Unit := do
  let operands := (← ask fun g => g.op u.user).operands
  if operands.length ≤ u.index then
    .ofExcept (.error (.outOfBounds u.index operands.length))
  updateOp u.user fun d => { d with operands := d.operands.set u.index v }
  updateValue v fun d => d.addUse u

/-- Replaces a value by another one in every slot of its use list. -/
def replaceAllUses (old new : Value) : Edit V Unit := do
  let g ← graph
  if !g.values.contains new then
    .ofExcept (.error .missingReplacement)
  if old = new then
    return ()
  else
    let uses := (← ask fun g => g.value old).uses
    updateValue old fun d => { d with uses := [] }
    .forEach uses (redirectUse new)

end RegionIR.Edit
