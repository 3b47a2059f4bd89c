import Mathlib.Algebra.Group.Int.Defs
import Mathlib.Algebra.Group.Nat.Defs
import RegionIR.Context.Basic
import RegionIR.Proofs.Data.Computations

/-!
# Ranges of types that have a width

The bounds of an integer type are computed in words of 128 bits.  No step of
the computation leaves its range unless the width is zero, and what it computes
are the bounds of the width or, beyond 128 bits, those of the widest word.  No
payload tells these from the bounds of a wider integer, for it is such a word
itself.

## Main results

* `TypeKind.exists_misfit` — a payload can be checked against every type that has a width.
* `TypeKind.exists_misfit_integer` — it fits an integer type iff it lies between the bounds.
-/

namespace RegionIR

namespace Signedness

/-- The least integer of a width, without regard to words. -/
def lower (width : Nat) : Signedness → Int
  | .unsigned => 0
  | _ => -2 ^ (width - 1)

/-- The greatest integer of a width, without regard to words. -/
def upper (width : Nat) : Signedness → Int
  | .signed => 2 ^ (width - 1) - 1
  | _ => 2 ^ width - 1

theorem lower_nonpos (width : Nat) (sign : Signedness) : sign.lower width ≤ 0 := by
  have hpow : (0 : Int) < 2 ^ (width - 1) := Int.pow_pos (by decide)
  cases sign <;> simp only [lower] <;> omega

theorem two_pow_le_two_pow {m n : Nat} (h : m ≤ n) : (2 : Int) ^ m ≤ 2 ^ n := by
  exact_mod_cast Nat.pow_le_pow_right (by decide) h

/-- Beyond 128 bits a word is not below the bounds if it is not below those of 128 bits. -/
theorem lower_min_le_iff (width : Nat) (sign : Signedness) (value : Word128) :
    sign.lower (min width 128) ≤ value.toInt ↔ sign.lower width ≤ value.toInt := by
  rcases Nat.le_total width 128 with hle | hwide
  · rw [Nat.min_eq_left hle]
  · rw [Nat.min_eq_right hwide]
    have hpow : (2 : Int) ^ 127 ≤ 2 ^ (width - 1) := two_pow_le_two_pow (by omega)
    have hvalue : -2 ^ 127 ≤ value.toInt := BitVec.le_toInt value
    cases sign with
    | unsigned => exact Iff.rfl
    | signless => exact iff_of_true hvalue (Int.le_trans (Int.neg_le_neg hpow) hvalue)
    | signed => exact iff_of_true hvalue (Int.le_trans (Int.neg_le_neg hpow) hvalue)

/-- Nor is it above them if it is not above those of 128 bits. -/
theorem le_upper_min_iff (width : Nat) (sign : Signedness) (value : Word128) :
    value.toInt ≤ sign.upper (min width 128) ↔ value.toInt ≤ sign.upper width := by
  rcases Nat.le_total width 128 with hle | hwide
  · rw [Nat.min_eq_left hle]
  · rw [Nat.min_eq_right hwide]
    have hpow : (2 : Int) ^ 127 ≤ 2 ^ (width - 1) := two_pow_le_two_pow (by omega)
    have hpow' : (2 : Int) ^ 128 ≤ 2 ^ width := two_pow_le_two_pow hwide
    have hvalue : value.toInt < 2 ^ 127 := BitVec.toInt_lt
    cases sign with
    | unsigned =>
        exact iff_of_true (show value.toInt ≤ 2 ^ 128 - 1 by omega)
          (show value.toInt ≤ 2 ^ width - 1 by omega)
    | signless =>
        exact iff_of_true (show value.toInt ≤ 2 ^ 128 - 1 by omega)
          (show value.toInt ≤ 2 ^ width - 1 by omega)
    | signed =>
        exact iff_of_true (show value.toInt ≤ 2 ^ 127 - 1 by omega)
          (show value.toInt ≤ 2 ^ (width - 1) - 1 by omega)

end Signedness

namespace TypeKind

/-! ## Steps of the computation -/

/-- One bit of a word, at any place. -/
theorem toNat_one_shiftLeft {places : Nat} (h : places < 128) :
    ((1 : Word128) <<< places).toNat = 2 ^ places := by
  have hlt : 2 ^ places < 2 ^ 128 := Nat.pow_lt_pow_right (by decide) h
  rw [BitVec.toNat_shiftLeft, show (1 : Word128).toNat = 1 from rfl, Nat.shiftLeft_eq, Nat.one_mul,
    Nat.mod_eq_of_lt hlt]

/-- A power of two below `2 ^ 127` has a negative. -/
theorem exists_negWord_power {width : Nat} (h : 0 < width) (hwide : width < 128) :
    ∃ w, (do Checked.negWord (← Checked.shiftLeftWord 1 (← Checked.sub width 1))) = .ok w ∧
      w.toInt = -2 ^ (width - 1) := by
  have hplaces : width - 1 < 128 := by omega
  have hlt : 2 ^ (width - 1) < 2 ^ 127 := Nat.pow_lt_pow_right (by decide) (by omega)
  have hpower := toNat_one_shiftLeft hplaces
  have hne : (1 : Word128) <<< (width - 1) ≠ BitVec.intMin 128 := by
    intro heq
    rw [heq, BitVec.toNat_intMin] at hpower
    omega
  have hsub : Checked.sub width 1 = .ok (width - 1) := if_pos h
  refine ⟨-((1 : Word128) <<< (width - 1)), ?_, ?_⟩
  · rw [hsub, ok_bind, Checked.shiftLeftWord, if_pos hplaces, ok_bind, Checked.negWord, if_neg hne]
  · rw [BitVec.toInt_neg_of_ne_intMin hne, BitVec.toInt_eq_toNat_of_lt (by omega), hpower]
    push_cast
    rfl

/-- A power of two has a predecessor. -/
theorem exists_subWord_power {places : Nat} (h : places < 128) :
    ∃ w, (do Checked.subWord (← Checked.shiftLeftWord 1 places) 1) = .ok w ∧
      (w.toNat : Int) = 2 ^ places - 1 := by
  have hpower := toNat_one_shiftLeft h
  have hone : (1 : Word128).toNat ≤ ((1 : Word128) <<< places).toNat := by
    rw [hpower]
    exact Nat.one_le_two_pow
  refine ⟨(1 : Word128) <<< places - 1, ?_, ?_⟩
  · rw [Checked.shiftLeftWord, if_pos h, ok_bind, Checked.subWord, if_pos hone]
  · have hpos : 1 ≤ 2 ^ places := Nat.one_le_two_pow
    have hunit : (1 : Word128).toNat = 1 := rfl
    rw [BitVec.toNat_sub_of_le (BitVec.le_def.2 hone), hpower, hunit]
    push_cast [hpos]
    rfl

/-! ## The bounds -/

/-- The least integer of a type is that of its width, up to 128 bits. -/
theorem exists_leastInteger {width : Nat} (h : 0 < width) (sign : Signedness) :
    ∃ w, leastInteger width sign = .ok w ∧ w.toInt = sign.lower (min width 128) := by
  rcases Nat.lt_or_ge width 128 with hlt | hwide
  · rw [Nat.min_eq_left (Nat.le_of_lt hlt)]
    obtain ⟨w, hpower, hvalue⟩ := exists_negWord_power h hlt
    have hnarrow : ¬ 128 ≤ width := Nat.not_le.2 hlt
    cases sign with
    | unsigned => exact ⟨0, rfl, rfl⟩
    | signless => exact ⟨w, (if_neg hnarrow).trans hpower, hvalue⟩
    | signed => exact ⟨w, (if_neg hnarrow).trans hpower, hvalue⟩
  · rw [Nat.min_eq_right hwide]
    cases sign with
    | unsigned => exact ⟨0, rfl, rfl⟩
    | signless => exact ⟨_, if_pos hwide, by decide⟩
    | signed => exact ⟨_, if_pos hwide, by decide⟩

/-- The greatest integer of a type is that of its width, up to 128 bits. -/
theorem exists_greatestInteger {width : Nat} (h : 0 < width) (sign : Signedness) :
    ∃ w, greatestInteger width sign = .ok w ∧ (w.toNat : Int) = sign.upper (min width 128) := by
  rcases Nat.lt_or_ge width 128 with hlt | hwide
  · rw [Nat.min_eq_left (Nat.le_of_lt hlt)]
    have hnarrow : ¬ 128 ≤ width := Nat.not_le.2 hlt
    cases sign with
    | unsigned =>
        obtain ⟨w, hpower, hvalue⟩ := exists_subWord_power hlt
        exact ⟨w, (if_neg hnarrow).trans hpower, hvalue⟩
    | signless =>
        obtain ⟨w, hpower, hvalue⟩ := exists_subWord_power hlt
        exact ⟨w, (if_neg hnarrow).trans hpower, hvalue⟩
    | signed =>
        obtain ⟨w, hpower, hvalue⟩ := exists_subWord_power (show width - 1 < 128 by omega)
        have hsub : Checked.sub width 1 = .ok (width - 1) := if_pos h
        refine ⟨w, (if_neg hnarrow).trans ?_, hvalue⟩
        rw [hsub, ok_bind]
        exact hpower
  · rw [Nat.min_eq_right hwide]
    cases sign with
    | unsigned => exact ⟨_, if_pos hwide, by decide⟩
    | signless => exact ⟨_, if_pos hwide, by decide⟩
    | signed => exact ⟨_, if_pos hwide, by decide⟩

/-- The two comparisons, each with a word read in its own way, decide whether an integer lies
between the bounds. -/
theorem withinRange_iff {value least greatest : Word128} (h : least.toInt ≤ 0) :
    withinRange value least greatest = true ↔
      least.toInt ≤ value.toInt ∧ value.toInt ≤ greatest.toNat := by
  unfold withinRange
  by_cases hneg : value.toInt < 0
  · rw [if_pos hneg, decide_eq_true_eq]
    constructor
    · intro hleast
      exact ⟨hleast, by omega⟩
    · exact And.left
  · have hvalue : value.toInt = value.toNat :=
      BitVec.toInt_eq_toNat_of_lt (BitVec.toInt_pos_iff.1 (Int.not_lt.1 hneg))
    rw [if_neg hneg, decide_eq_true_eq, hvalue]
    constructor
    · intro hgreatest
      exact ⟨by omega, by omega⟩
    · intro h
      exact Int.ofNat_le.1 h.2

theorem checkRange_eq_none_iff {kind : TypeKind} {value least greatest : Word128} :
    kind.checkRange value least greatest = none ↔ withinRange value least greatest = true := by
  unfold checkRange
  split <;> simp [*]

theorem eq_range_of_checkRange {kind : TypeKind} {value least greatest : Word128} {e : MisfitError}
    (h : kind.checkRange value least greatest = some e) :
    e = .range kind value least greatest := by
  unfold checkRange at h
  split at h
  · cases h
  · exact (Option.some.inj h).symm

/-- Whether an integer fits a type that has a width can be told.  It does iff it lies between the
bounds of the width, and the error has them, up to 128 bits. -/
theorem exists_misfit_integer {width : Nat} (h : 0 < width) (sign : Signedness)
    (value : Word128) : ∃ least greatest : Word128,
      (integer width sign).misfit (.int value) =
        .ok ((integer width sign).checkRange value least greatest) ∧
      ((integer width sign).checkRange value least greatest = none ↔
        sign.lower width ≤ value.toInt ∧ value.toInt ≤ sign.upper width) ∧
      least.toInt = sign.lower (min width 128) ∧
      (greatest.toNat : Int) = sign.upper (min width 128) := by
  obtain ⟨least, hleast, hlower⟩ := exists_leastInteger h sign
  obtain ⟨greatest, hgreatest, hupper⟩ := exists_greatestInteger h sign
  refine ⟨least, greatest, ?_, ?_, hlower, hupper⟩
  · simp only [misfit, hleast, hgreatest, ok_bind]
    rfl
  · have hnonpos : least.toInt ≤ 0 := hlower ▸ Signedness.lower_nonpos _ _
    rw [checkRange_eq_none_iff, withinRange_iff hnonpos, hlower, hupper,
      Signedness.lower_min_le_iff, Signedness.le_upper_min_iff]

/-- Whether a payload fits can be told of every type that has a width. -/
theorem exists_misfit {k : TypeKind} (h : Context.checkWidth k = .ok ()) (p : Payload) :
    ∃ m, k.misfit p = .ok m := by
  cases k with
  | integer width sign =>
      cases p with
      | int value =>
          have hwidth : 0 < width := by
            rcases Nat.eq_zero_or_pos width with rfl | hpos
            · cases h
            · exact hpos
          obtain ⟨_, _, hmisfit, -⟩ := exists_misfit_integer hwidth sign value
          exact ⟨_, hmisfit⟩
      | float _ => exact ⟨_, rfl⟩
      | str _ => exact ⟨_, rfl⟩
  | index => cases p <;> exact ⟨_, rfl⟩
  | float _ => cases p <;> exact ⟨_, rfl⟩
  | nonNumeric => cases p <;> exact ⟨_, rfl⟩

end TypeKind

end RegionIR
