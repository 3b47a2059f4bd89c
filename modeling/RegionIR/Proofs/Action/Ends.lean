import RegionIR.Edit.Basic

/-!
# How actions end

`Outcome.Ends` says what holds where an outcome is done and where it is
refused; a fault ends the run, so there is no state to speak about.  Each
primitive step has one equation that turns a statement about its end into a
statement about its start, and `ends_bind` chains them: the end of a script
is computed backwards, from its last step to its first.

Faults are deliberately left out.  The invariants of a graph are about the
states that a run reaches, and a run that meets a fault reaches none.

## Main results

* `ends_bind` — the end of two steps in a row.
* `ends_orUndo` — an undone step refuses where the undoing is done.
* `ends_forEach_of_invariant` — what every round of a loop keeps, the loop keeps.
-/

namespace RegionIR

namespace Outcome

variable {σ ε α : Type}

/-- The postcondition of an outcome: one for its result, one for its refusal. -/
def Ends (out : Outcome σ ε α) (done : α → σ → Prop) (refused : ε → σ → Prop) : Prop :=
  match out with
  | .done x s => done x s
  | .refused e s => refused e s
  | .fault _ => True

@[simp] theorem ends_done {done : α → σ → Prop} {refused : ε → σ → Prop} (x : α) (s : σ) :
    (Outcome.done x s).Ends done refused ↔ done x s := Iff.rfl

@[simp] theorem ends_refused {done : α → σ → Prop} {refused : ε → σ → Prop} (e : ε) (s : σ) :
    (Outcome.refused e s : Outcome σ ε α).Ends done refused ↔ refused e s := Iff.rfl

@[simp] theorem ends_fault {done : α → σ → Prop} {refused : ε → σ → Prop} (c : Fault) :
    (Outcome.fault c : Outcome σ ε α).Ends done refused ↔ True := Iff.rfl

@[simp] theorem ends_true (out : Outcome σ ε α) :
    out.Ends (fun _ _ => True) (fun _ _ => True) ↔ True := by
  cases out <;> rfl

/-- A postcondition may be weakened. -/
theorem Ends.mono {out : Outcome σ ε α} {done done' : α → σ → Prop}
    {refused refused' : ε → σ → Prop} (h : out.Ends done refused)
    (hdone : ∀ x s, done x s → done' x s) (hrefused : ∀ e s, refused e s → refused' e s) :
    out.Ends done' refused' := by
  cases out with
  | done x s => exact hdone x s h
  | refused e s => exact hrefused e s h
  | fault c => trivial

end Outcome

namespace Action

open Outcome

variable {σ ε ε' α β : Type} {s : σ} {done : α → σ → Prop} {refused : ε → σ → Prop}

/-! ## Primitive steps -/

@[simp] theorem ends_pure (x : α) :
    ((pure x : Action σ ε α).run s).Ends done refused ↔ done x s := Iff.rfl

theorem ends_get {done : σ → σ → Prop} :
    ((get : Action σ ε σ).run s).Ends done refused ↔ done s s := Iff.rfl

theorem run_bind_of_done {a : Action σ ε β} {x : β} {s' : σ} (f : β → Action σ ε α)
    (h : a.run s = .done x s') : (a >>= f).run s = (f x).run s' := by
  rw [run_bind, h]

theorem run_bind_eq_done_iff {a : Action σ ε β} {f : β → Action σ ε α} {x : α} {s' : σ} :
    (a >>= f).run s = .done x s' ↔ ∃ y t, a.run s = .done y t ∧ (f y).run t = .done x s' := by
  rw [run_bind]
  cases a.run s with
  | done y t =>
      constructor
      · exact fun h => ⟨y, t, rfl, h⟩
      · rintro ⟨y', t', heq, h⟩
        cases heq
        exact h
  | refused e t => simp
  | fault c => simp

theorem run_bind_of_refused {a : Action σ ε β} {e : ε} {s' : σ} (f : β → Action σ ε α)
    (h : a.run s = .refused e s') : (a >>= f).run s = .refused e s' := by
  rw [run_bind, h]

theorem run_bind_of_fault {a : Action σ ε β} {c : Fault} (f : β → Action σ ε α)
    (h : a.run s = .fault c) : (a >>= f).run s = .fault c := by
  rw [run_bind, h]

theorem ends_bind (a : Action σ ε β) (f : β → Action σ ε α) :
    ((a >>= f).run s).Ends done refused ↔
      (a.run s).Ends (fun x s' => ((f x).run s').Ends done refused) refused := by
  rw [run_bind]
  cases a.run s <;> rfl

@[simp] theorem ends_refuse (e : ε) :
    ((refuse e : Action σ ε α).run s).Ends done refused ↔ refused e s := Iff.rfl

@[simp] theorem ends_refuseIf {done : Unit → σ → Prop} (e : Option ε) :
    ((refuseIf e : Action σ ε Unit).run s).Ends done refused ↔
      (e = none → done () s) ∧ ∀ x, e = some x → refused x s := by
  cases e with
  | none => simp
  | some x => simp

theorem ends_ite {c : Prop} [Decidable c] (a b : Action σ ε α) :
    ((if c then a else b).run s).Ends done refused ↔
      (c → (a.run s).Ends done refused) ∧ (¬ c → (b.run s).Ends done refused) := by
  by_cases h : c
  · rw [if_pos h]
    exact ⟨fun ha => ⟨fun _ => ha, absurd h⟩, fun hab => hab.1 h⟩
  · rw [if_neg h]
    exact ⟨fun hb => ⟨fun hc => absurd hc h, fun _ => hb⟩, fun hab => hab.2 h⟩

theorem ends_ofExcept (x : Except Fault α) :
    ((ofExcept x : Action σ ε α).run s).Ends done refused ↔ ∀ y, x = .ok y → done y s := by
  cases x with
  | ok y => simp
  | error c => simp

/-- After a fault there is nothing to show. -/
@[simp] theorem ends_ofExcept_error (c : Fault) :
    ((ofExcept (.error c) : Action σ ε α).run s).Ends done refused ↔ True := Iff.rfl

theorem ends_read (f : σ → Except Fault α) :
    ((read f : Action σ ε α).run s).Ends done refused ↔ ∀ x, f s = .ok x → done x s := by
  cases h : f s with
  | ok y =>
      rw [run_read_of_ok h]
      simp
  | error c =>
      rw [run_read_of_error h]
      simp

theorem run_mapError (a : Action σ ε' α) (f : ε' → ε) :
    (a.mapError f).run s =
      match a.run s with
      | .done x s' => .done x s'
      | .refused e s' => .refused (f e) s'
      | .fault c => .fault c := rfl

theorem run_mapError_of_done {a : Action σ ε' α} {x : α} {s' : σ} (f : ε' → ε)
    (h : a.run s = .done x s') : (a.mapError f).run s = .done x s' := by
  rw [run_mapError, h]

theorem run_mapError_of_refused {a : Action σ ε' α} {e : ε'} {s' : σ} (f : ε' → ε)
    (h : a.run s = .refused e s') : (a.mapError f).run s = .refused (f e) s' := by
  rw [run_mapError, h]

/-- Errors may be put into another type. -/
theorem ends_mapError (a : Action σ ε' α) (f : ε' → ε) :
    ((a.mapError f).run s).Ends done refused ↔
      (a.run s).Ends done fun e s' => refused (f e) s' := by
  rw [run_mapError]
  cases a.run s <;> rfl

theorem ends_orUndo (a : Action σ ε α) (undo : Action σ ε Unit) :
    ((a.orUndo undo).run s).Ends done refused ↔
      (a.run s).Ends done (fun e s' =>
        (undo.run s').Ends (fun _ s'' => refused e s'') refused) := by
  rw [run_orUndo]
  cases a.run s with
  | done x s' => rfl
  | refused e s' => exact ends_bind undo _
  | fault c => rfl

/-- What is done without being undone is what the action does. -/
theorem run_orUndo_eq_done_iff {a : Action σ ε α} {undo : Action σ ε Unit} {x : α} {s' : σ} :
    (a.orUndo undo).run s = .done x s' ↔ a.run s = .done x s' := by
  rw [run_orUndo]
  cases a.run s with
  | done y t => rfl
  | refused e t => simp [run_bind_eq_done_iff]
  | fault c => rfl

/-! ## Loops -/

/-- What every round keeps, the loop keeps, and it refuses as one of its rounds does. -/
theorem ends_forEach_of_invariant {I : σ → Prop} {l : List β} {f : β → Action σ ε Unit}
    (hround : ∀ x ∈ l, ∀ s, I s → ((f x).run s).Ends (fun _ s' => I s') refused) (hs : I s) :
    ((forEach l f).run s).Ends (fun _ s' => I s') refused := by
  induction l generalizing s with
  | nil => exact hs
  | cons x rest ih =>
      rw [forEach_cons, ends_bind]
      refine (hround x List.mem_cons_self s hs).mono (fun _ s' hs' => ?_) fun _ _ h => h
      exact ih (fun y hy => hround y (List.mem_cons_of_mem x hy)) hs'

/-- A loop whose rounds update the state and never refuse is a fold. -/
theorem ends_forEach_of_update {l : List β} {f : β → Action σ ε Unit} {update : σ → β → σ}
    (hround : ∀ x s, ((f x).run s).Ends (fun _ s' => s' = update s x) (fun _ _ => False)) :
    ((forEach l f).run s).Ends (fun _ s' => s' = l.foldl update s) (fun _ _ => False) := by
  induction l generalizing s with
  | nil => rfl
  | cons x rest ih =>
      rw [forEach_cons, ends_bind]
      refine (hround x s).mono (fun _ s' hs' => ?_) fun _ _ h => h
      rw [hs', List.foldl_cons]
      exact ih

end Action

end RegionIR
