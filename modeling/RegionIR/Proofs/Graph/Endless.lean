import RegionIR.Graph.Verify
import RegionIR.Proofs.Graph.Walks

/-!
# Only endless walks meet their bounds

Verification walks down a graph that may be broken, and up from every parent
block on its way.  Both walks are bounded, and here nothing is known that
keeps the links from going round.  Still a bound is never what an answer
depends on.  A walk that ends within any number of steps does not come back to
where it has been, so it passes every entry once, and there are fewer of them
than the bound allows for.

## Main results

* `Passed.length_le` — a way that does not go round is no longer than its table.
* `Graph.blockInside_eq_of_within` — the walk up ends with the answer that it
  has with any number of steps.
* `Graph.failures_eq_of_within` — so does the walk of verification, with any
  number of levels.
-/

namespace RegionIR

open Relation

/-! ## Ways that do not go round -/

/-- The entries passed on a way: every one of them once, and whoever is next is ahead of all. -/
structure Passed {κ β : Type} [OrderedKey κ] (R : κ → κ → Prop) (t : Table κ β) (seen : List κ)
    (x : κ) : Prop where
  nodup : seen.Nodup
  live : ∀ y ∈ seen, t.contains y = true
  ahead : ∀ y ∈ seen, TransGen R x y

theorem not_transGen_of_acc {α : Type} {R : α → α → Prop} {x : α} (h : Acc R x) :
    ¬ TransGen R x x := by
  have htrans := h.transGen
  clear h
  induction htrans with
  | intro x _ ih => exact fun hround => ih x hround hround

namespace Passed

variable {κ β : Type} [OrderedKey κ] {R : κ → κ → Prop} {t : Table κ β} {seen : List κ} {x y : κ}

theorem nil (R : κ → κ → Prop) (t : Table κ β) (x : κ) : Passed R t [] x where
  nodup := List.nodup_nil
  live := fun _ hy => absurd hy List.not_mem_nil
  ahead := fun _ hy => absurd hy List.not_mem_nil

/-- One step further the present entry is passed too. -/
theorem cons (h : Passed R t seen x) (hx : t.contains x = true) (hacc : Acc R x)
    (hstep : R y x) : Passed R t (x :: seen) y where
  nodup := List.nodup_cons.2 ⟨fun hmem => not_transGen_of_acc hacc (h.ahead x hmem), h.nodup⟩
  live := List.forall_mem_cons.2 ⟨hx, h.live⟩
  ahead := List.forall_mem_cons.2 ⟨.single hstep, fun z hz => .head hstep (h.ahead z hz)⟩

theorem length_le (h : Passed R t seen x) : seen.length ≤ t.size := by
  have hsub : seen ⊆ t.keys := fun y hy =>
    Table.mem_keys_iff.2 (Table.contains_iff.1 (h.live y hy))
  have hle := List.Nodup.length_le_of_subset h.nodup hsub
  rwa [Table.length_keys] at hle

end Passed

namespace Graph

variable {V : Type} {g : Graph V}

/-! ## Upwards -/

/-- The walk up goes on from a block to the block around its owner, past the given regions. -/
def Above (g : Graph V) (regions : List Region) (b' b : Block) : Prop :=
  ∃ r, g.owner? b = some r ∧ r ∉ regions ∧ g.blockAround? r = some b'

theorem acc_of_blockInsideWithin {regions : List Region} {steps : Nat} {b : Block} {inside : Bool}
    (h : g.blockInsideWithin regions steps b = .ok inside) : Acc (g.Above regions) b := by
  induction steps generalizing b with
  | zero => cases h
  | succ steps ih =>
      refine .intro b fun b' hb' => ?_
      obtain ⟨r, howner, hr, haround⟩ := hb'
      rw [blockInsideWithin_succ, howner] at h
      dsimp only at h
      rw [if_neg hr, haround] at h
      exact ih h

/-- With the steps that are left after a way up, the walk ends as it does with any number. -/
theorem blockInsideWithin_eq_of_passed {regions : List Region} {steps steps' : Nat} {b : Block}
    {seen : List Block} {inside : Bool} (hpassed : Passed (g.Above regions) g.blocks seen b)
    (hsteps : steps' + seen.length = g.blocks.size + 1)
    (h : g.blockInsideWithin regions steps b = .ok inside) :
    g.blockInsideWithin regions steps' b = .ok inside := by
  have hacc := acc_of_blockInsideWithin h
  induction steps' generalizing steps b seen with
  | zero =>
      have hle := hpassed.length_le
      omega
  | succ steps' ih =>
      cases steps with
      | zero => cases h
      | succ steps =>
          rw [blockInsideWithin_succ] at h ⊢
          cases howner : g.owner? b with
          | none =>
              rw [howner] at h
              exact h
          | some r =>
              rw [howner] at h
              dsimp only at h ⊢
              by_cases hr : r ∈ regions
              · rw [if_pos hr] at h ⊢
                exact h
              · rw [if_neg hr] at h ⊢
                cases haround : g.blockAround? r with
                | none =>
                    rw [haround] at h
                    exact h
                | some b' =>
                    rw [haround] at h
                    have hstep : g.Above regions b' b := ⟨r, howner, hr, haround⟩
                    have hnext := hpassed.cons (contains_of_owner? howner) hacc hstep
                    refine ih hnext ?_ h (acc_of_blockInsideWithin h)
                    rw [List.length_cons]
                    omega

/-- A walk up that ends with some number of steps ends within its bound, with the same answer. -/
theorem blockInside_eq_of_within {regions : List Region} {steps : Nat} {b : Block} {inside : Bool}
    (h : g.blockInsideWithin regions steps b = .ok inside) :
    g.blockInside b regions = .ok inside :=
  blockInsideWithin_eq_of_passed (.nil _ _ b) rfl h

end Graph

/-! ## Downwards -/

namespace Graph

variable {V : Type} {g : Graph V}

section Levels

variable {visit : Op → Except Fault (List RuleFailure)} {failures : List RuleFailure}

theorem listedFailures_transfer {b : Block} {last : Option Op} {o : Op}
    (h : g.listedFailures visit b last o = .ok failures) : (∃ inner, visit o = .ok inner) ∧
      ∀ visit', (∀ inner, visit o = .ok inner → visit' o = .ok inner) →
        g.listedFailures visit' b last o = .ok failures := by
  obtain ⟨d, hd, h⟩ := bind_eq_ok_iff.1 h
  obtain ⟨inner, hinner, h⟩ := bind_eq_ok_iff.1 h
  refine ⟨⟨inner, hinner⟩, fun visit' hvisit' => ?_⟩
  rw [listedFailures, hd, ok_bind, hvisit' inner hinner, ok_bind]
  exact h

theorem blockFailures_transfer {r : Region} {b : Block}
    (h : g.blockFailures visit r b = .ok failures) :
    (∀ o ∈ g.opsIn b, ∃ inner, visit o = .ok inner) ∧
      ∀ visit', (∀ o ∈ g.opsIn b, ∀ inner, visit o = .ok inner → visit' o = .ok inner) →
        g.blockFailures visit' r b = .ok failures := by
  obtain ⟨d, hd, h⟩ := bind_eq_ok_iff.1 h
  obtain ⟨args, hargs, h⟩ := bind_eq_ok_iff.1 h
  obtain ⟨ops, hops, h⟩ := bind_eq_ok_iff.1 h
  have hitems : g.opsIn b = d.ops.items := opsIn_eq (Table.demand_eq_ok_iff.1 hd)
  obtain ⟨hends, hsame⟩ := mapM_transfer hops
  rw [hitems]
  refine ⟨fun o ho => ?_, fun visit' hvisit' => ?_⟩
  · obtain ⟨listed, hlisted⟩ := hends o ho
    exact (listedFailures_transfer hlisted).1
  · have hops' := hsame (g.listedFailures visit' b d.ops.back?) fun o ho listed hlisted =>
      (listedFailures_transfer hlisted).2 visit' (hvisit' o ho)
    rw [blockFailures, hd, ok_bind, hargs, ok_bind, hops', ok_bind]
    exact h

theorem regionFailures_transfer {o : Op} {r : Region}
    (h : g.regionFailures visit o r = .ok failures) :
    (∀ b ∈ g.blocksIn r, ∀ o' ∈ g.opsIn b, ∃ inner, visit o' = .ok inner) ∧
      ∀ visit', (∀ b ∈ g.blocksIn r, ∀ o' ∈ g.opsIn b, ∀ inner,
        visit o' = .ok inner → visit' o' = .ok inner) →
          g.regionFailures visit' o r = .ok failures := by
  unfold regionFailures at h ⊢
  cases hd : g.regions.find? r with
  | none =>
      rw [hd] at h
      refine ⟨fun b hb => ?_, fun _ _ => h⟩
      rw [blocksIn, hd] at hb
      cases hb
  | some d =>
      rw [hd] at h
      obtain ⟨blocks, hblocks, h⟩ := bind_eq_ok_iff.1 h
      obtain ⟨hends, hsame⟩ := mapM_transfer hblocks
      rw [blocksIn_eq hd]
      refine ⟨fun b hb => ?_, fun visit' hvisit' => ?_⟩
      · obtain ⟨inner, hinner⟩ := hends b hb
        exact (blockFailures_transfer hinner).1
      · have hblocks' := hsame (g.blockFailures visit' r) fun b hb inner hinner =>
          (blockFailures_transfer hinner).2 visit' (hvisit' b hb)
        dsimp only
        rw [hblocks', ok_bind]
        exact h

end Levels

/-- An operation is listed by a block of a region of another one. -/
def Below (g : Graph V) (o' o : Op) : Prop :=
  ∃ r ∈ g.regionsOf o, ∃ b ∈ g.blocksIn r, o' ∈ g.opsIn b

variable [OpVerifier V] {failures : List RuleFailure}

theorem failuresWithin_succ_transfer {levels : Nat} {o : Op}
    (h : g.failuresWithin (levels + 1) o = .ok failures) : g.ops.contains o = true ∧
      (∀ o', g.Below o' o → ∃ inner, g.failuresWithin levels o' = .ok inner) ∧
      ∀ levels', (∀ o', g.Below o' o → ∀ inner,
        g.failuresWithin levels o' = .ok inner → g.failuresWithin levels' o' = .ok inner) →
          g.failuresWithin (levels' + 1) o = .ok failures := by
  obtain ⟨d, hd, h⟩ := bind_eq_ok_iff.1 h
  obtain ⟨rules, hrules, h⟩ := bind_eq_ok_iff.1 h
  obtain ⟨results, hresults, h⟩ := bind_eq_ok_iff.1 h
  obtain ⟨regions, hregions, h⟩ := bind_eq_ok_iff.1 h
  have hfind : g.ops.find? o = some d := Table.demand_eq_ok_iff.1 hd
  have hitems : g.regionsOf o = d.regions := regionsOf_eq hfind
  obtain ⟨hends, hsame⟩ := mapM_transfer hregions
  refine ⟨Table.contains_iff.2 ⟨d, hfind⟩, fun o' ho' => ?_, fun levels' hlevels' => ?_⟩
  · obtain ⟨r, hr, b, hb, ho'⟩ := ho'
    rw [hitems] at hr
    obtain ⟨inner, hinner⟩ := hends r hr
    exact (regionFailures_transfer hinner).1 b hb o' ho'
  · have hregions' := hsame (g.regionFailures (g.failuresWithin levels') o)
      fun r hr inner hinner => (regionFailures_transfer hinner).2 _ fun b hb o' ho' =>
        hlevels' o' ⟨r, hitems ▸ hr, b, hb, ho'⟩
    rw [failuresWithin, hd, ok_bind, hrules, ok_bind, hresults, ok_bind, hregions', ok_bind]
    exact h

theorem acc_of_failuresWithin {levels : Nat} {o : Op}
    (h : g.failuresWithin levels o = .ok failures) : Acc g.Below o := by
  induction levels generalizing o failures with
  | zero => cases h
  | succ levels ih =>
      obtain ⟨-, hends, -⟩ := failuresWithin_succ_transfer h
      refine .intro o fun o' ho' => ?_
      obtain ⟨inner, hinner⟩ := hends o' ho'
      exact ih hinner

/-- With the levels that are left after a way down, the walk ends as it does with any number. -/
theorem failuresWithin_eq_of_passed {levels levels' : Nat} {o : Op} {seen : List Op}
    (hpassed : Passed g.Below g.ops seen o) (hlevels : levels' + seen.length = g.ops.size + 1)
    (h : g.failuresWithin levels o = .ok failures) :
    g.failuresWithin levels' o = .ok failures := by
  induction levels' generalizing levels o seen failures with
  | zero =>
      have hle := hpassed.length_le
      omega
  | succ levels' ih =>
      cases levels with
      | zero => cases h
      | succ levels =>
          obtain ⟨hlive, -, hsame⟩ := failuresWithin_succ_transfer h
          refine hsame levels' fun o' ho' inner hinner => ?_
          refine ih (hpassed.cons hlive (acc_of_failuresWithin h) ho') ?_ hinner
          rw [List.length_cons]
          omega

/-- Verification that ends with some number of levels ends within its bound, with the same
failures. -/
theorem failures_eq_of_within {levels : Nat} {o : Op}
    (h : g.failuresWithin levels o = .ok failures) : g.failures o = .ok failures :=
  failuresWithin_eq_of_passed (.nil _ _ o) rfl h

end Graph

end RegionIR
