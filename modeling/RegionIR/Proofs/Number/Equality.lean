import RegionIR.Context.Payload

/-!
# Equality as numbers and equality of bits

Arithmetic has an equality of its own.  It agrees with the equality of bits on
all numbers but two kinds: NaN is equal to nothing, not even to itself, and the
two zeros are equal although their bits are not.

## Main results

* `Binary64.orderKey_eq_iff` — two numbers in one place of the order are one number or both zero.
* `Binary64.numericEq_iff`, `Payload.numericEq_iff` — equality as numbers, said by bits.
-/

namespace RegionIR

namespace Binary64

variable {x y : Binary64}

/-- One of the two zeros. -/
def isZero (x : Binary64) : Bool := x.magnitude = 0

theorem isNaN_of_isZero (h : x.isZero = true) : x.isNaN = false := by
  have hzero : x.magnitude = 0 := of_decide_eq_true h
  rw [isNaN, hzero]
  rfl

theorem toNat_bits (x : Binary64) :
    x.bits.toNat = x.magnitude + if x.isNegative then Nat.pow 2 63 else 0 := by
  have hlt : x.bits.toNat < 2 * Nat.pow 2 63 := x.bits.toNat_lt
  have hdiv := Nat.mod_add_div x.bits.toNat (Nat.pow 2 63)
  by_cases hsign : Nat.pow 2 63 ≤ x.bits.toNat
  · have hnegative : x.isNegative = true := decide_eq_true hsign
    have hone : x.bits.toNat / Nat.pow 2 63 = 1 := Nat.div_eq_of_lt_le (by omega) hlt
    rw [hone, Nat.mul_one] at hdiv
    rw [if_pos hnegative]
    exact hdiv.symm
  · have hnonnegative : ¬ x.isNegative = true := fun h => hsign (of_decide_eq_true h)
    rw [if_neg hnonnegative]
    exact (Nat.mod_eq_of_lt (Nat.lt_of_not_le hsign)).symm

/-- Numbers are told apart by their signs and magnitudes. -/
theorem eq_of_parts (hsign : x.isNegative = y.isNegative) (hmagnitude : x.magnitude = y.magnitude) :
    x = y := by
  have hbits : x.bits.toNat = y.bits.toNat := by
    rw [toNat_bits, toNat_bits, hsign, hmagnitude]
  cases x
  cases y
  exact congrArg Binary64.mk (UInt64.toNat.inj hbits)

theorem orderKey_of_negative (h : x.isNegative = true) : x.orderKey = -(x.magnitude : Int) :=
  if_pos h

theorem orderKey_of_nonnegative (h : x.isNegative = false) : x.orderKey = x.magnitude :=
  if_neg (Bool.eq_false_iff.1 h)

/-- Keys of different signs meet at zero and nowhere else. -/
theorem isZero_of_orderKey_eq (hx : x.isNegative = true) (hy : y.isNegative = false)
    (hkey : x.orderKey = y.orderKey) : x.isZero = true ∧ y.isZero = true := by
  rw [orderKey_of_negative hx, orderKey_of_nonnegative hy] at hkey
  exact ⟨decide_eq_true (by omega), decide_eq_true (by omega)⟩

theorem orderKey_of_isZero (h : x.isZero = true) : x.orderKey = 0 := by
  have hzero : x.magnitude = 0 := of_decide_eq_true h
  cases hsign : x.isNegative with
  | true => rw [orderKey_of_negative hsign, hzero, Int.natCast_zero, Int.neg_zero]
  | false => rw [orderKey_of_nonnegative hsign, hzero, Int.natCast_zero]

/-- No two numbers have one key but the zeros. -/
theorem orderKey_eq_iff :
    x.orderKey = y.orderKey ↔ x = y ∨ (x.isZero = true ∧ y.isZero = true) := by
  constructor
  · intro hkey
    cases hx : x.isNegative with
    | true =>
        cases hy : y.isNegative with
        | true =>
            rw [orderKey_of_negative hx, orderKey_of_negative hy] at hkey
            exact Or.inl (eq_of_parts (hx.trans hy.symm) (by omega))
        | false => exact Or.inr (isZero_of_orderKey_eq hx hy hkey)
    | false =>
        cases hy : y.isNegative with
        | true => exact Or.inr (isZero_of_orderKey_eq hy hx hkey.symm).symm
        | false =>
            rw [orderKey_of_nonnegative hx, orderKey_of_nonnegative hy] at hkey
            exact Or.inl (eq_of_parts (hx.trans hy.symm) (by omega))
  · rintro (rfl | ⟨hx, hy⟩)
    · rfl
    · rw [orderKey_of_isZero hx, orderKey_of_isZero hy]

/-- Numbers are equal if their bits are, unless they are NaN, and all zeros are equal. -/
theorem numericEq_iff :
    x.numericEq y = true ↔ (x = y ∧ y.isNaN = false) ∨ (x.isZero = true ∧ y.isZero = true) := by
  rw [numericEq, Bool.and_eq_true, Bool.and_eq_true, Bool.not_eq_true', Bool.not_eq_true',
    beq_iff_eq, orderKey_eq_iff]
  constructor
  · rintro ⟨⟨-, hy⟩, rfl | hzeros⟩
    · exact Or.inl ⟨rfl, hy⟩
    · exact Or.inr hzeros
  · rintro (⟨rfl, hy⟩ | ⟨hx, hy⟩)
    · exact ⟨⟨hy, hy⟩, Or.inl rfl⟩
    · exact ⟨⟨isNaN_of_isZero hx, isNaN_of_isZero hy⟩, Or.inr ⟨hx, hy⟩⟩

end Binary64

namespace Payload

def isNaN : Payload → Bool
  | .float x => x.isNaN
  | _ => false

/-- A zero among the floats; the integer zero has one form only. -/
def isFloatZero : Payload → Bool
  | .float x => x.isZero
  | _ => false

theorem numericEq_iff {p q : Payload} :
    p.numericEq q = true ↔
      (p = q ∧ q.isNaN = false) ∨ (p.isFloatZero = true ∧ q.isFloatZero = true) := by
  cases p with
  | float x =>
      cases q with
      | float y => simp only [numericEq, isNaN, isFloatZero, float.injEq, Binary64.numericEq_iff]
      | int | str => simp [numericEq, isFloatZero]
  | int | str => cases q <;> simp [numericEq, isNaN, isFloatZero]

end Payload

end RegionIR
