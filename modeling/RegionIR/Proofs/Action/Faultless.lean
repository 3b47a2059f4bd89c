import RegionIR.Proofs.Action.Ends

/-!
# Actions that meet no fault

What an action does where it is done or refused is said by `Ends`, and a
fault is left out there.  This module is the other half: `Faultless` says that
an outcome is not a fault, and nothing else.  The two halves meet in
`faultless_bind`.  The second of two steps runs in a store that is known from
how the first one ends, so all that `Ends` has established is at hand when a
later look-up has to succeed.

## Main results

* `faultless_bind` — two steps in a row.
* `faultless_orUndo` — an undone step; the undoing must not fail either.
* `faultless_forEach_of_invariant` — a loop whose rounds keep what the next round needs.
-/

namespace RegionIR

namespace Outcome

variable {σ ε α : Type}

/-- The outcome is done or refused. -/
def Faultless (out : Outcome σ ε α) : Prop :=
  match out with
  | .done _ _ => True
  | .refused _ _ => True
  | .fault _ => False

@[simp] theorem faultless_done (x : α) (s : σ) :
    (Outcome.done x s : Outcome σ ε α).Faultless ↔ True := Iff.rfl

@[simp] theorem faultless_refused (e : ε) (s : σ) :
    (Outcome.refused e s : Outcome σ ε α).Faultless ↔ True := Iff.rfl

@[simp] theorem faultless_fault (c : Fault) :
    (Outcome.fault c : Outcome σ ε α).Faultless ↔ False := Iff.rfl

theorem Faultless.never_fault {out : Outcome σ ε α} (h : out.Faultless) (c : Fault) :
    out ≠ .fault c := by
  rintro rfl
  exact h

/-- Without a fault there is one of two ends, and what holds of both holds of the outcome. -/
theorem Faultless.of_ends {out : Outcome σ ε α} {P : Outcome σ ε α → Prop} (h : out.Faultless)
    (hends : out.Ends (fun x s => P (.done x s)) fun e s => P (.refused e s)) : P out := by
  cases out with
  | done x s => exact hends
  | refused e s => exact hends
  | fault c => exact h.elim

end Outcome

namespace Action

open Outcome

variable {σ ε ε' α β : Type} {s : σ}

/-! ## Primitive steps -/

@[simp] theorem faultless_pure (x : α) :
    ((pure x : Action σ ε α).run s).Faultless ↔ True := Iff.rfl

@[simp] theorem faultless_refuse (e : ε) :
    ((refuse e : Action σ ε α).run s).Faultless ↔ True := Iff.rfl

@[simp] theorem faultless_refuseIf (e : Option ε) :
    ((refuseIf e : Action σ ε Unit).run s).Faultless ↔ True := by
  cases e <;> rfl

/-- Wherever the first step is done, the second one has to be without a fault. -/
theorem faultless_bind (a : Action σ ε β) (f : β → Action σ ε α) :
    ((a >>= f).run s).Faultless ↔ (a.run s).Faultless ∧
      (a.run s).Ends (fun x s' => ((f x).run s').Faultless) fun _ _ => True := by
  rw [run_bind]
  cases a.run s <;> simp

/-- What is done with a result at the end does not matter. -/
theorem faultless_bind_pure (a : Action σ ε β) (f : β → α) :
    ((a >>= fun x => pure (f x)).run s).Faultless ↔ (a.run s).Faultless := by
  rw [faultless_bind]
  simp

theorem faultless_ite {c : Prop} [Decidable c] (a b : Action σ ε α) :
    ((if c then a else b).run s).Faultless ↔
      (c → (a.run s).Faultless) ∧ (¬ c → (b.run s).Faultless) := by
  by_cases h : c <;> simp [h]

theorem faultless_ofExcept (x : Except Fault α) :
    ((ofExcept x : Action σ ε α).run s).Faultless ↔ ∃ y, x = .ok y := by
  cases x with
  | ok y => simp
  | error c => simp

theorem faultless_read (f : σ → Except Fault α) :
    ((read f : Action σ ε α).run s).Faultless ↔ ∃ x, f s = .ok x := by
  cases h : f s with
  | ok y =>
      rw [run_read_of_ok h]
      simp
  | error c =>
      rw [run_read_of_error h]
      simp

theorem faultless_mapError (a : Action σ ε' α) (f : ε' → ε) :
    ((a.mapError f).run s).Faultless ↔ (a.run s).Faultless := by
  rw [run_mapError]
  cases a.run s <;> rfl

/-- The undoing starts wherever the action may be refused. -/
theorem faultless_orUndo (a : Action σ ε α) (undo : Action σ ε Unit) :
    ((a.orUndo undo).run s).Faultless ↔ (a.run s).Faultless ∧
      (a.run s).Ends (fun _ _ => True) fun _ s' => (undo.run s').Faultless := by
  rw [run_orUndo]
  cases a.run s with
  | done x s' => simp
  | refused e s' =>
      rw [faultless_bind]
      cases h : undo.run s' <;> simp [h]
  | fault c => simp

/-! ## Loops -/

/-- A loop meets no fault if no round does and every round keeps what the next one needs. -/
theorem faultless_forEach_of_invariant {I : σ → Prop} {l : List β} {f : β → Action σ ε Unit}
    (hround : ∀ x ∈ l, ∀ s, I s → ((f x).run s).Faultless ∧
      ((f x).run s).Ends (fun _ s' => I s') fun _ _ => True) (hs : I s) :
    ((forEach l f).run s).Faultless := by
  induction l generalizing s with
  | nil => trivial
  | cons x rest ih =>
      rw [forEach_cons, faultless_bind]
      obtain ⟨hfirst, hkeeps⟩ := hround x List.mem_cons_self s hs
      refine ⟨hfirst, hkeeps.mono (fun _ s' hs' => ?_) fun _ _ h => h⟩
      exact ih (fun y hy => hround y (List.mem_cons_of_mem x hy)) hs'

end Action

end RegionIR
