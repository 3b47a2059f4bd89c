import RegionIR.Dialect
import RegionIR.Proofs.Context.Range
import RegionIR.Proofs.Context.Runs

/-!
# What integer types hold

No context makes an integer type of width zero, and none can be planted that
was not made before.  So whatever integer type a caller has, any payload that is
a number can be checked against it, and the answer is that of the range of its
width in the integers, for words of all widths and for payloads of both signs.

## Main results

* `Run.integer_range` — the range check of every integer type of a run is exact.
-/

namespace RegionIR.Context

variable {V : Type} {past : Past} {s : Session V} {t : Ty} {width : Nat} {sign : Signedness}

/-- An integer type that a run has brought about has a width. -/
theorem Run.width_pos (h : Run past s) (ht : HasType s t)
    (hkind : t.kind = .integer width sign) : 0 < width := by
  have hwidth := h.traced.positive (h.traced.typeBound ht)
  rw [hkind] at hwidth
  rcases Nat.eq_zero_or_pos width with rfl | hpos
  · cases hwidth
  · exact hpos

/-- Every integer type of a run has a width and tells of each word whether it holds it: no step on
the way to the bounds leaves its range, the words that fit are those of the range, and the error of
one that does not fit has the bounds of the range, if these are words. -/
theorem Run.integer_range (h : Run past s) (ht : HasType s t)
    (hkind : t.kind = .integer width sign) : 0 < width ∧ ∀ value : Word128, ∃ outcome,
      t.kind.misfit (.int value) = .ok outcome ∧
      (outcome = none ↔ sign.lower width ≤ value.toInt ∧ value.toInt ≤ sign.upper width) ∧
      ∀ e, outcome = some e → ∃ least greatest : Word128, e = .range t.kind value least greatest ∧
        (width ≤ 128 → least.toInt = sign.lower width ∧
          (greatest.toNat : Int) = sign.upper width) := by
  have hpos := h.width_pos ht hkind
  refine ⟨hpos, fun value => ?_⟩
  obtain ⟨least, greatest, hmisfit, hfits, hleast, hgreatest⟩ :=
    TypeKind.exists_misfit_integer hpos sign value
  rw [← hkind] at hmisfit hfits
  refine ⟨_, hmisfit, hfits, fun e he => ⟨least, greatest, ?_, fun hwidth => ?_⟩⟩
  · exact TypeKind.eq_range_of_checkRange he
  · rw [Nat.min_eq_left hwidth] at hleast hgreatest
    exact ⟨hleast, hgreatest⟩

/-- The type of signed words of 127 bits. -/
def narrowType : Ty := ⟨⟨0, 0⟩, .integer 127 .signed⟩

/-- A session with that type and no other. -/
def withNarrow : Session DialectVerifier :=
  ({} : Session DialectVerifier).withContext 0
    (({} : Context).advanced.withType narrowType.kind narrowType)

theorem run_withNarrow : Run [(0, .typeOf narrowType.kind)] withNarrow := by
  have hmake : (Call.typeOf narrowType.kind).action.run {} = .done (.type narrowType)
      (({} : Context).advanced.withType narrowType.kind narrowType) := by
    decide +kernel
  exact Run.start.done (Call.held_of_nil rfl rfl) (Session.run_onContext_of_done rfl hmake)

/-- The first word beyond 127 bits is refused by its type, with the bounds of 127 bits. -/
theorem Run.integer_range_narrow : Run [(0, .typeOf narrowType.kind)] withNarrow ∧
    HasType withNarrow narrowType ∧ ∃ least greatest : Word128,
      narrowType.kind.misfit (.int (1 <<< 126)) =
        .ok (some (.range narrowType.kind (1 <<< 126) least greatest)) ∧
      least.toInt = -2 ^ 126 ∧ (greatest.toNat : Int) = 2 ^ 126 - 1 := by
  have hbound : HasType withNarrow narrowType := .bound ⟨0, narrowType.kind, by decide +kernel⟩
  obtain ⟨-, hall⟩ := run_withNarrow.integer_range hbound rfl
  obtain ⟨outcome, hmisfit, hfits, herror⟩ := hall (1 <<< 126)
  cases outcome with
  | none => exact absurd (hfits.1 rfl).2 (by decide)
  | some e =>
      obtain ⟨least, greatest, rfl, hbounds⟩ := herror e rfl
      exact ⟨run_withNarrow, hbound, least, greatest, hmisfit, hbounds (by decide)⟩

end RegionIR.Context
