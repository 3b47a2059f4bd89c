import RegionIR.Context.Kind
import RegionIR.Number.Checked
import RegionIR.Number.Shortest
import RegionIR.Text.Quoted

/-!
# Payloads of attributes

A payload is a signed 128-bit integer, a double-precision number or a text.
Equality of payloads (`=`) compares floats by their bits; this is what keys
go by. Attributes that are not the same instance compare their payloads by
`Payload.numericEq`, in which the two zeros are equal and NaN equals nothing.
-/

namespace RegionIR

/-- The value that an attribute carries. -/
inductive Payload where
  | int (value : Word128)
  | float (value : Binary64)
  | str (value : String)
  deriving DecidableEq, Inhabited

namespace Payload

def shape : Payload → Shape
  | .int _ => .integer
  | .float _ => .float
  | .str _ => .text

/-- Equality that compares floats as arithmetic does. -/
def numericEq : Payload → Payload → Bool
  | .int a, .int b => a == b
  | .float a, .float b => a.numericEq b
  | .str a, .str b => a == b
  | _, _ => false

/-- Floats are written positionally from `1e-4` up to `1e16`, and always
with a point or an exponent. -/
def floatFormat : DecimalFormat where
  leastPositional := -4
  firstScientific := 16
  exponentMark := "e"
  wholeMark := ".0"
  notANumber := "NaN"
  infinite := "inf"
  minus := "-"

def text : Payload → String
  | .int value => toString value.toInt
  | .float value => floatFormat.text value
  | .str value => Text.quoted value

/-- The text of a payload as part of a key: floats show their bits. -/
def keyText : Payload → String
  | .int value => "Int(" ++ toString value.toInt ++ ")"
  | .float value => "Float(" ++ toString value.bits.toNat ++ ")"
  | .str value => "Str(" ++ Text.quoted value ++ ")"

def asInt? : Payload → Option Word128
  | .int value => some value
  | _ => none

def asFloat? : Payload → Option Binary64
  | .float value => some value
  | _ => none

def asStr? : Payload → Option String
  | .str value => some value
  | _ => none

end Payload

/-- What an attribute is interned under. -/
structure AttributeKey where
  kind : TypeKind
  payload : Payload
  deriving DecidableEq, Inhabited

/-- `Int(1) : index`, `Str("x") : none`. -/
def AttributeKey.text (k : AttributeKey) : String :=
  k.payload.keyText ++ " : " ++ k.kind.text

end RegionIR
