import RegionIR.Number.Binary64

/-!
# The shortest decimal that reads back

Every finite number is surrounded by the reals that round to it, its
rounding interval; the ends belong to it iff the significand is even. The
grids of the multiples of `10 ^ j` are searched from coarse to fine, and the
first grid with a point in the interval gives the fewest digits. On that
grid only the two neighbours of the number can be nearest to it.

All of it is exact arithmetic on natural numbers: lengths are counted in
quarters of the last bit's place, over the common denominator `2 ^ 1076`.
-/

namespace RegionIR

/-- `digits · 10 ^ exponent`. -/
structure Decimal where
  digits : Nat
  exponent : Int
  deriving DecidableEq, Repr, Inhabited

/-- A number and its rounding interval, over a common denominator. -/
structure RoundingInterval where
  low : Nat
  value : Nat
  high : Nat
  denominator : Nat
  /-- Both ends belong to the interval. -/
  closed : Bool
  deriving DecidableEq, Repr, Inhabited

namespace RoundingInterval

/-- The interval of a finite number. The lower gap is half as wide at the
first significand of a place, where the numbers below are twice as dense. -/
def ofBinary64 (x : Binary64) : RoundingInterval :=
  let unit := Nat.pow 2 x.place
  let m := x.significand
  let gap := if x.fractionField = 0 && 1 < x.exponentField then 1 else 2
  { low := (4 * m - gap) * unit
    value := 4 * m * unit
    high := (4 * m + 2) * unit
    denominator := Nat.pow 2 1076
    closed := m % 2 == 0 }

/-- The fraction `p / q` lies in the interval. -/
def holds (r : RoundingInterval) (p q : Nat) : Bool :=
  if r.closed then r.low * q ≤ p * r.denominator && p * r.denominator ≤ r.high * q
  else r.low * q < p * r.denominator && p * r.denominator < r.high * q

/-- The point of the grid of multiples of `10 ^ j` that is nearest to the
number, among those in the interval; a tie goes to the larger one. -/
def onGrid (r : RoundingInterval) (j : Int) : Option Decimal :=
  let up := Nat.pow 10 j.toNat
  let down := Nat.pow 10 (-j).toNat
  let below := r.value * down / (r.denominator * up)
  let above := below + 1
  let rest := r.value * down - below * (r.denominator * up)
  match r.holds (below * up) down, r.holds (above * up) down with
  | true, true => some ⟨if 2 * rest < r.denominator * up then below else above, j⟩
  | true, false => some ⟨below, j⟩
  | false, true => some ⟨above, j⟩
  | false, false => none

end RoundingInterval

namespace Binary64

/-- The decimal of fewest digits that reads back as a finite number that is
not zero, and of those the nearest. No grid is needed that is coarser than
the largest number or finer than the least one. -/
def shortest (x : Binary64) : Decimal :=
  let r := RoundingInterval.ofBinary64 x
  ((List.range 634).findSome? fun (i : Nat) => r.onGrid (309 - (i : Int))).getD ⟨0, 0⟩

end Binary64

/-- How a format writes decimal numbers. -/
structure DecimalFormat where
  /-- The least power of ten whose multiples are written positionally. -/
  leastPositional : Int
  /-- The first power of ten from which on numbers are written with an exponent. -/
  firstScientific : Int
  /-- What stands between the digits and the exponent. -/
  exponentMark : String
  /-- What follows a positional number without a fraction. -/
  wholeMark : String
  notANumber : String
  infinite : String
  minus : String

namespace DecimalFormat

/-- A decimal with the point in its place: among the digits, before or after them. -/
def positional (f : DecimalFormat) (digits : String) (exponent : Int) : String :=
  if 0 ≤ exponent then
    digits ++ "".pushn '0' exponent.toNat ++ f.wholeMark
  else
    let places := (-exponent).toNat
    if places < digits.length then
      String.ofList (digits.toList.take (digits.length - places)) ++ "." ++
        String.ofList (digits.toList.drop (digits.length - places))
    else
      "0." ++ "".pushn '0' (places - digits.length) ++ digits

/-- A decimal with its point after the first digit and the exponent written out. -/
def scientific (f : DecimalFormat) (digits : String) (exponent : Int) : String :=
  let rest := String.ofList (digits.toList.drop 1)
  String.ofList (digits.toList.take 1) ++ (if rest.isEmpty then "" else "." ++ rest) ++
    f.exponentMark ++ toString exponent

/-- The text of a number. -/
def text (f : DecimalFormat) (x : Binary64) : String :=
  if x.isNaN then f.notANumber
  else
    let sign := if x.isNegative then f.minus else ""
    if x.isInfinite then sign ++ f.infinite
    else if x.magnitude = 0 then sign ++ f.positional "0" 0
    else
      let d := x.shortest
      let digits := toString d.digits
      let leading := d.exponent + digits.length - 1
      sign ++
        if f.leastPositional ≤ leading && leading < f.firstScientific then
          f.positional digits d.exponent
        else
          f.scientific digits leading

end DecimalFormat

end RegionIR
