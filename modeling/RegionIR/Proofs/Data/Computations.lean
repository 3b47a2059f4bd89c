import RegionIR.Fault

/-!
# Computations that may meet a fault

`Settles` says what holds of the result of a computation and what holds of
the fault that it meets instead.  A walk over a graph is a chain of look-ups
and of traversals of lists, so two rules cover all of it.

The second half is about the length of a walk.  A walk that never comes back
passes each entry of a finite list once; the number of entries that lie
behind a point falls with every step.

## Main results

* `settles_bind`, `settles_mapM_flatten` — chains and traversals.
* `Stops.bind`, `Stops.mapM` — where they meet a fault, and what it comes from.
* `countBehind_lt` — a step leaves fewer entries behind.
-/

namespace RegionIR

variable {α β : Type}

/-- A computation goes on with its result. -/
@[simp] theorem ok_bind (x : β) (f : β → Except Fault α) :
    ((.ok x : Except Fault β) >>= f) = f x := rfl

/-- A computation ends in a result of one kind or in a fault of one kind. -/
def Settles (r : Except Fault α) (result : α → Prop) (fault : Fault → Prop) : Prop :=
  match r with
  | .ok x => result x
  | .error c => fault c

section Settles

variable {result : α → Prop} {fault : Fault → Prop}

@[simp] theorem settles_ok (x : α) : Settles (.ok x) result fault ↔ result x := Iff.rfl

@[simp] theorem settles_error (c : Fault) :
    Settles (.error c : Except Fault α) result fault ↔ fault c := Iff.rfl

@[simp] theorem settles_pure (x : α) : Settles (pure x) result fault ↔ result x := Iff.rfl

theorem settles_bind (r : Except Fault β) (f : β → Except Fault α) :
    Settles (r >>= f) result fault ↔ Settles r (fun y => Settles (f y) result fault) fault := by
  cases r <;> rfl

theorem Settles.mono {r : Except Fault α} {result' : α → Prop} (h : Settles r result fault)
    (hresult : ∀ x, result x → result' x) : Settles r result' fault := by
  cases r with
  | ok x => exact hresult x h
  | error c => exact h

/-- A traversal settles if every member does; its results stand in the order of the members. -/
theorem settles_mapM {P : β → α → Prop} {l : List β} {f : β → Except Fault α}
    (h : ∀ x ∈ l, Settles (f x) (P x) fault) :
    Settles (l.mapM f) (fun ys => ∀ y ∈ ys, ∃ x ∈ l, P x y) fault := by
  induction l with
  | nil =>
      intro y hy
      cases hy
  | cons x rest ih =>
      rw [List.mapM_cons, settles_bind]
      refine (h x List.mem_cons_self).mono fun y hy => ?_
      rw [settles_bind]
      refine (ih fun x' hx' => h x' (List.mem_cons_of_mem x hx')).mono fun ys hys => ?_
      intro y' hy'
      rcases List.mem_cons.1 hy' with rfl | hy'
      · exact ⟨x, List.mem_cons_self, hy⟩
      · obtain ⟨x', hx', hP⟩ := hys y' hy'
        exact ⟨x', List.mem_cons_of_mem x hx', hP⟩

/-- What a traversal lists, one of its members has listed. -/
theorem settles_mapM_flatten {P : α → Prop} {l : List β} {f : β → Except Fault (List α)}
    (h : ∀ x ∈ l, Settles (f x) (fun ys => ∀ y ∈ ys, P y) fault) :
    Settles (l.mapM f) (fun lists => ∀ y ∈ lists.flatten, P y) fault := by
  refine (settles_mapM h).mono fun lists hlists y hy => ?_
  obtain ⟨ys, hys, hy⟩ := List.mem_flatten.1 hy
  obtain ⟨x, _, hP⟩ := hlists ys hys
  exact hP y hy

end Settles

/-! ## Causes of faults -/

/-- A computation ends unless there is a cause for a fault, and what it meets has a cause. -/
def Stops (r : Except Fault α) (cause : Fault → Prop) : Prop :=
  Settles r (fun _ => ∀ c, ¬ cause c) cause

namespace Stops

variable {r : Except Fault β} {k : β → Except Fault α} {cause second : Fault → Prop}

theorem self (r : Except Fault β) : Stops r fun c => r = .error c := by
  cases r with
  | ok x =>
      intro c h
      cases h
  | error c => rfl

theorem congr {cause' : Fault → Prop} (h : Stops r cause) (hiff : ∀ c, cause c ↔ cause' c) :
    Stops r cause' := by
  rwa [← funext fun c => propext (hiff c)]

theorem ok_iff (h : Stops r cause) : (∃ x, r = .ok x) ↔ ∀ c, ¬ cause c := by
  cases r with
  | ok x => exact iff_of_true ⟨x, rfl⟩ h
  | error c => exact iff_of_false (fun ⟨x, hx⟩ => by cases hx) fun hnone => hnone c h

theorem of_error (h : Stops r cause) {c : Fault} (hr : r = .error c) : cause c := by
  subst hr
  exact h

/-- The first step that has a cause to stop decides. -/
theorem bind (h : Stops r cause) (hk : ∀ x, r = .ok x → Stops (k x) second) :
    Stops (r >>= k) fun c => cause c ∨ second c := by
  cases r with
  | error c => exact Or.inl h
  | ok x =>
      have hrest := hk x rfl
      rw [ok_bind]
      cases hx : k x with
      | error c => exact Or.inr (hrest.of_error hx)
      | ok y => exact fun c hc => hc.elim (h c) (hrest.ok_iff.1 ⟨y, hx⟩ c)

/-- To go on with a result is no cause to stop. -/
theorem bind_pure (h : Stops r cause) (f : β → α) : Stops (r >>= fun x => pure (f x)) cause := by
  cases r with
  | error c => exact h
  | ok x => exact h

/-- A traversal has the causes of its members. -/
theorem mapM {l : List β} {cause : β → Fault → Prop} (h : ∀ x ∈ l, Stops (k x) (cause x)) :
    Stops (l.mapM k) fun c => ∃ x ∈ l, cause x c := by
  induction l with
  | nil =>
      rintro c ⟨x, hx, -⟩
      cases hx
  | cons x rest ih =>
      have hfirst := h x List.mem_cons_self
      have hrest := ih fun x' hx' => h x' (List.mem_cons_of_mem x hx')
      rw [List.mapM_cons]
      refine (hfirst.bind fun y _ => hrest.bind_pure (y :: ·)).congr fun c => ?_
      simp only [List.mem_cons, exists_eq_or_imp]

end Stops

theorem bind_eq_ok_iff {r : Except Fault β} {f : β → Except Fault α} {x : α} :
    r >>= f = .ok x ↔ ∃ y, r = .ok y ∧ f y = .ok x := by
  cases r with
  | error c =>
      constructor
      · intro h
        cases h
      · rintro ⟨y, hy, -⟩
        cases hy
  | ok y =>
      rw [ok_bind]
      constructor
      · intro h
        exact ⟨y, rfl, h⟩
      · rintro ⟨y', hy', h⟩
        cases hy'
        exact h

/-- The results of a traversal are those of a map, if each computation has just that result. -/
theorem eq_map_of_mapM_eq_ok {F : β → α} {l : List β} {f : β → Except Fault α} {ys : List α}
    (h : ∀ x y, f x = .ok y → y = F x) (hys : l.mapM f = .ok ys) : ys = l.map F := by
  induction l generalizing ys with
  | nil =>
      cases hys
      rfl
  | cons x rest ih =>
      rw [List.mapM_cons] at hys
      obtain ⟨y, hy, hys⟩ := bind_eq_ok_iff.1 hys
      obtain ⟨ys', hys', heq⟩ := bind_eq_ok_iff.1 hys
      cases heq
      rw [h x y hy, ih hys', List.map_cons]

/-- A traversal that goes through collects one result for every member. -/
theorem mapM_eq_ok {P : β → α → Prop} {l : List β} {f : β → Except Fault α}
    (h : ∀ x ∈ l, ∃ y, f x = .ok y ∧ P x y) :
    ∃ ys, l.mapM f = .ok ys ∧ (∀ y ∈ ys, ∃ x ∈ l, P x y) ∧ ∀ x ∈ l, ∃ y ∈ ys, P x y := by
  induction l with
  | nil =>
      refine ⟨[], rfl, ?_, ?_⟩
      · intro y hy
        cases hy
      · intro x hx
        cases hx
  | cons x rest ih =>
      obtain ⟨y, hy, hP⟩ := h x List.mem_cons_self
      obtain ⟨ys, hys, hback, hforth⟩ := ih fun x' hx' => h x' (List.mem_cons_of_mem x hx')
      refine ⟨y :: ys, ?_, fun y' hy' => ?_, fun x' hx' => ?_⟩
      · rw [List.mapM_cons, hy, hys]
        rfl
      · rcases List.mem_cons.1 hy' with rfl | hy'
        · exact ⟨x, List.mem_cons_self, hP⟩
        · obtain ⟨x', hx', hP'⟩ := hback y' hy'
          exact ⟨x', List.mem_cons_of_mem x hx', hP'⟩
      · rcases List.mem_cons.1 hx' with rfl | hx'
        · exact ⟨y, List.mem_cons_self, hP⟩
        · obtain ⟨y', hy', hP'⟩ := hforth x' hx'
          exact ⟨y', List.mem_cons_of_mem y hy', hP'⟩

/-- Where a traversal goes through, so does every member, and members with the same results may take
their places. -/
theorem mapM_transfer {l : List β} {f : β → Except Fault α} {ys : List α}
    (h : l.mapM f = .ok ys) : (∀ x ∈ l, ∃ y, f x = .ok y) ∧
      ∀ f' : β → Except Fault α, (∀ x ∈ l, ∀ y, f x = .ok y → f' x = .ok y) →
        l.mapM f' = .ok ys := by
  induction l generalizing ys with
  | nil => exact ⟨fun x hx => absurd hx List.not_mem_nil, fun _ _ => h⟩
  | cons x rest ih =>
      rw [List.mapM_cons] at h
      obtain ⟨y, hy, h⟩ := bind_eq_ok_iff.1 h
      obtain ⟨ys', hys', h⟩ := bind_eq_ok_iff.1 h
      obtain ⟨hends, hsame⟩ := ih hys'
      refine ⟨List.forall_mem_cons.2 ⟨⟨y, hy⟩, hends⟩, fun f' hf' => ?_⟩
      obtain ⟨hfirst, hrest⟩ := List.forall_mem_cons.1 hf'
      rw [List.mapM_cons, hfirst y hy, ok_bind, hsame f' hrest, ok_bind]
      exact h

/-! ## The length of a walk -/

section Behind

variable {R : α → α → Prop} {l : List α} {x y : α}

open Classical in
/-- The number of entries of a list that lie behind a point. -/
noncomputable def countBehind (R : α → α → Prop) (l : List α) (x : α) : Nat :=
  (l.filter fun y => R y x).length

theorem countBehind_le (R : α → α → Prop) (l : List α) (x : α) : countBehind R l x ≤ l.length :=
  List.length_filter_le _ l

/-- Whoever goes back leaves fewer entries behind: at least the point where it now stands. -/
theorem countBehind_lt (htrans : ∀ {a b c}, R a b → R b c → R a c) (hirrefl : ∀ a, ¬ R a a)
    (hy : y ∈ l) (hstep : R y x) : countBehind R l y < countBehind R l x := by
  classical
  have hsub : (l.filter fun z => R z y) = (l.filter fun z => R z x).filter fun z => R z y := by
    rw [List.filter_filter]
    apply List.filter_congr
    intro z _
    by_cases hz : R z y
    · have hzx := htrans hz hstep
      simp [hz, hzx]
    · simp [hz]
  unfold countBehind
  rw [hsub]
  apply List.length_filter_lt_length_iff_exists.2
  exact ⟨y, List.mem_filter.2 ⟨hy, by simpa using hstep⟩, by simpa using hirrefl y⟩

end Behind

end RegionIR
