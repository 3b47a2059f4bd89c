/-!
# Kinds of types

A kind is the structure of a type: an integer of some width and
signedness, the index type, one of six floating-point types, or the type of
texts. Two types are equal iff their kinds are.
-/

namespace RegionIR

/-- How the bits of an integer are read. -/
inductive Signedness where
  /-- The sign is not fixed yet. -/
  | signless
  | unsigned
  | signed
  deriving DecidableEq, Repr, Inhabited

/-- The floating-point formats. -/
inductive FloatFormat where
  | f16
  | f32
  | f64
  | f80
  | f128
  | bf16
  deriving DecidableEq, Repr, Inhabited

namespace FloatFormat

def width : FloatFormat → Nat
  | .f16 => 16
  | .bf16 => 16
  | .f32 => 32
  | .f64 => 64
  | .f80 => 80
  | .f128 => 128

def text : FloatFormat → String
  | .f16 => "f16"
  | .f32 => "f32"
  | .f64 => "f64"
  | .f80 => "f80"
  | .f128 => "f128"
  | .bf16 => "bf16"

end FloatFormat

/-- The structure of a type. -/
inductive TypeKind where
  | integer (width : Nat) (sign : Signedness)
  | index
  | float (format : FloatFormat)
  /-- The type of values without a number, which are texts. -/
  | nonNumeric
  deriving DecidableEq, Repr, Inhabited

/-- The shapes that a payload may have. -/
inductive Shape where
  | integer
  | float
  | text
  deriving DecidableEq, Repr, Inhabited

def Shape.words : Shape → String
  | .integer => "an integer"
  | .float => "a floating-point"
  | .text => "a string"

namespace TypeKind

/-- The shape of the payloads that a type of this kind holds. -/
def shape : TypeKind → Shape
  | .integer _ _ => .integer
  | .index => .integer
  | .float _ => .float
  | .nonNumeric => .text

/-- The family of the kind. -/
def tag : TypeKind → String
  | .integer _ _ => "integer"
  | .index => "index"
  | .float _ => "float"
  | .nonNumeric => "none"

/-- The width in bits of a value; the index type has none of its own. -/
def width? : TypeKind → Option Nat
  | .integer width _ => some width
  | .float format => some format.width
  | .index => none
  | .nonNumeric => none

def isInteger : TypeKind → Bool
  | .integer _ _ => true
  | _ => false

def isIndex : TypeKind → Bool
  | .index => true
  | _ => false

def isFloat : TypeKind → Bool
  | .float _ => true
  | _ => false

/-- The name of the kind: `i32`, `si8`, `ui1`, `index`, `f64`, `none`. -/
def text : TypeKind → String
  | .integer width .signless => "i" ++ toString width
  | .integer width .signed => "si" ++ toString width
  | .integer width .unsigned => "ui" ++ toString width
  | .index => "index"
  | .float format => format.text
  | .nonNumeric => "none"

end TypeKind

end RegionIR
