import RegionIR.Edit.Basic

/-!
# Blocks and their arguments

The arguments of a block are values that know their block and their
position. Positions are dense: after every edit the argument at position `i`
says `i`.
-/

namespace RegionIR.Edit

variable {V : Type}

/-- A new block without arguments and operations. -/
def newBlock : Edit V Block := do
  let b ← freshBlock
  putBlock b {}
  return b

/-- Adds an argument at the end. -/
def addArgument (b : Block) (ty : Ty) : Edit V Value := do
  let arg ← freshValue
  let args := (← ask fun g => g.block b).args
  putValue arg { ty := ty, origin := .argument (some b) (some args.length) }
  updateBlock b fun d => { d with args := d.args ++ [arg] }
  return arg

/-- A new block with arguments of the given types. -/
def newBlockWith (types : List Ty) : Edit V Block := do
  let b ← newBlock
  .forEach types fun ty => do
    let _ ← addArgument b ty
  return b

/-- Writes the positions of the arguments from position `start` on. -/
def renumberArguments (b : Block) (start : Nat) : Edit V Unit := do
  let args := (← ask fun g => g.block b).args
  if args.length < start then
    .ofExcept (.error (.startOutOfBounds start args.length))
  .forEach (args.zipIdx.drop start) fun arg =>
    updateValue arg.1 fun d => d.withOrigin (.argument (some b) (some arg.2))

/-- Inserts an argument at a position. -/
def insertArgument (b : Block) (i : Nat) (ty : Ty) : Edit V Value := do
  let length := (← ask fun g => g.block b).args.length
  if length < i then
    .refuse (.outOfRange .arguments i length)
  else
    let arg ← freshValue
    putValue arg { ty := ty, origin := .argument (some b) (some i) }
    updateBlock b fun d => { d with args := d.args.insertIdx i arg }
    renumberArguments b (i + 1)
    return arg

/-- The position that an argument says it has in the given block. -/
def statedPosition? (b : Block) : Origin → Option Nat
  | .argument (some b') (some i) => if b' = b then some i else none
  | _ => none

/-- Takes an argument out of its block. It stays in the graph, detached. -/
def removeArgument (b : Block) (arg : Value) : Edit V Unit := do
  match statedPosition? b (← ask fun g => g.value arg).origin with
  | none => .refuse (.argumentNotOwned arg b)
  | some i =>
    let args := (← ask fun g => g.block b).args
    if args.length ≤ i then
      .ofExcept (.error (.removalOutOfBounds i args.length))
    updateBlock b fun d => { d with args := d.args.eraseIdx i }
    updateValue arg fun d => d.withOrigin (.argument none none)
    renumberArguments b i

/-- Takes the argument at a position out of its block. -/
def removeArgumentAt (b : Block) (i : Nat) : Edit V Value := do
  let args := (← ask fun g => g.block b).args
  match args[i]? with
  | none => .refuse (.outOfRange .arguments i args.length)
  | some arg =>
    removeArgument b arg
    return arg

end RegionIR.Edit
