/-!
# Double-precision numbers

A number is its 64 bits: one sign bit, eleven bits of exponent and 52 bits
of fraction. Bits tell every two numbers apart, also the many that are not
a number and the two zeros; the comparisons of arithmetic do not.
-/

namespace RegionIR

/-- A double-precision number, told apart from others by its bits. -/
structure Binary64 where
  bits : UInt64
  deriving DecidableEq, Repr, Inhabited

namespace Binary64

/-- The sign bit is set. -/
def isNegative (x : Binary64) : Bool := Nat.pow 2 63 ≤ x.bits.toNat

/-- The bits without the sign. -/
def magnitude (x : Binary64) : Nat := x.bits.toNat % Nat.pow 2 63

def exponentField (x : Binary64) : Nat := x.magnitude / Nat.pow 2 52

def fractionField (x : Binary64) : Nat := x.magnitude % Nat.pow 2 52

/-- The magnitude of infinity: every exponent bit is set and no fraction bit. -/
def infiniteMagnitude : Nat := 2047 * Nat.pow 2 52

def isNaN (x : Binary64) : Bool := infiniteMagnitude < x.magnitude

def isInfinite (x : Binary64) : Bool := x.magnitude = infiniteMagnitude

/-- Numbers that are not NaN compare as these keys do: magnitudes rise with
the number they stand for, and both zeros have the key zero. -/
def orderKey (x : Binary64) : Int :=
  if x.isNegative then -(x.magnitude : Int) else x.magnitude

/-- Equality of arithmetic: the zeros are equal, and NaN equals nothing. -/
def numericEq (x y : Binary64) : Bool :=
  !x.isNaN && !y.isNaN && x.orderKey == y.orderKey

/-- Order of arithmetic, in which NaN has no place. -/
def numericLt (x y : Binary64) : Bool :=
  !x.isNaN && !y.isNaN && x.orderKey < y.orderKey

/-- The significand of a finite number, with the implicit bit of normal ones. -/
def significand (x : Binary64) : Nat :=
  if x.exponentField = 0 then x.fractionField else x.fractionField + Nat.pow 2 52

/-- The place of the significand's last bit, counted from the least one. -/
def place (x : Binary64) : Nat := x.exponentField - 1

end Binary64

end RegionIR
