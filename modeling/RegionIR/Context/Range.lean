import RegionIR.Context.Payload

/-!
# Which payloads fit a type

An integer of width `n` holds `[-2 ^ (n - 1), 2 ^ (n - 1) - 1]` if it is
signed and `[0, 2 ^ n - 1]` if it is unsigned; as long as the sign is not
fixed it holds both. Bounds beyond 128 bits are those of the widest word.
The index type holds the integers that are not negative.
-/

namespace RegionIR

/-- A payload that does not fit a type. -/
inductive MisfitError where
  /-- The shape is wrong for the type. -/
  | shape (kind : TypeKind) (found : Shape)
  /-- The number is outside the range of the type; `least` is a signed word
  and `greatest` one without sign. -/
  | range (kind : TypeKind) (value least greatest : Word128)
  deriving DecidableEq

def MisfitError.message : MisfitError → String
  | .shape kind found =>
    s!"type `{kind.text}` expects {kind.shape.words} value, but got {found.words} value"
  | .range kind value least greatest =>
    s!"value {value.toInt} is out of range [{least.toInt}, {greatest.toNat}] for type `{kind.text}`"

namespace TypeKind

/-- The least integer of a type, as a signed word. -/
def leastInteger (width : Nat) (sign : Signedness) : Except Fault Word128 :=
  match sign with
  | .unsigned => .ok 0
  | _ =>
    if 128 ≤ width then .ok (BitVec.intMin 128)
    else do Checked.negWord (← Checked.shiftLeftWord 1 (← Checked.sub width 1))

/-- The greatest integer of a type, as a word without sign. -/
def greatestInteger (width : Nat) (sign : Signedness) : Except Fault Word128 :=
  match sign with
  | .signed =>
    if 128 ≤ width then .ok (BitVec.intMax 128)
    else do Checked.subWord (← Checked.shiftLeftWord 1 (← Checked.sub width 1)) 1
  | _ =>
    if 128 ≤ width then .ok (BitVec.allOnes 128)
    else do Checked.subWord (← Checked.shiftLeftWord 1 width) 1

/-- Compares a signed word with a range: negative ones with the lower bound,
the others with the upper one. -/
def withinRange (value least greatest : Word128) : Bool :=
  if value.toInt < 0 then least.toInt ≤ value.toInt else value.toNat ≤ greatest.toNat

/-- The error of an integer that is out of range. -/
def checkRange (kind : TypeKind) (value least greatest : Word128) : Option MisfitError :=
  if withinRange value least greatest then none
  else some (.range kind value least greatest)

/-- Why a payload does not fit a type of this kind, if it does not. -/
def misfit (kind : TypeKind) (payload : Payload) : Except Fault (Option MisfitError) :=
  match kind, payload with
  | .integer width sign, .int value => do
    let least ← leastInteger width sign
    let greatest ← greatestInteger width sign
    return kind.checkRange value least greatest
  | .index, .int value => .ok (kind.checkRange value 0 (BitVec.intMax 128))
  | .float _, .float _ => .ok none
  | .nonNumeric, .str _ => .ok none
  | _, _ => .ok (some (.shape kind payload.shape))

end TypeKind

end RegionIR
