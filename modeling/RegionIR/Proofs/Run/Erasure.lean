import RegionIR.Proofs.Run.Guarantees

/-!
# What an erasure takes away

An erasure has three ends, and which of them is met depends on the graph
alone.  A use from outside the subtree is reported before a branch from
outside, and only where there is neither the subtree goes.

What is left is told entry by entry.  All that an entry outside the subtree
loses are links to what is gone, and each list keeps its order.

## Main results

* `Graph.Lost` — a graph before and after its subtree has gone.
* `ErasureEnds` — the three ends and what each of them promises.
* `Reachable.erasureEnds`
-/

namespace RegionIR

variable {V : Type}

namespace Graph

/-- The entries of a subtree and the values it produces are gone.  The others have lost their
links to it: edges in use lists, names in symbol tables, and the place of the root. -/
structure Lost (g : Graph V) (o : Op) (t : Subtree) (produced : List Value) (g' : Graph V) :
    Prop where
  op : ∀ o', g'.ops.find? o' =
    if o' ∈ t.ops then none
    else (g.ops.find? o').map fun d =>
      { d with symbols := d.symbols.map fun names =>
          names.filterValues fun x => decide (x ∉ t.ops) }
  value : ∀ v, g'.values.find? v =
    if v ∈ produced then none
    else (g.values.find? v).map fun d =>
      { d with uses := d.uses.filter fun u => decide (u.user ∉ t.ops) }
  block : ∀ b, g'.blocks.find? b =
    if b ∈ t.blocks then none
    else (g.blocks.find? b).map fun d =>
      if o ∈ d.ops then { d with ops := d.ops.remove o } else d
  region : ∀ r, g'.regions.find? r = if r ∈ t.regions then none else g.regions.find? r

/-- The block that names the root among its operations is the one that the root names. -/
theorem Owned.lost_prune {g : Graph V} (h : g.Owned) (o : Op) (t : Subtree)
    (produced : List Value) : g.Lost o t produced (g.prune o t produced) where
  op := find?_ops_prune g o t produced
  value := find?_values_prune g o t produced
  region := find?_regions_prune g o t produced
  block := by
    intro b
    rw [find?_blocks_prune]
    cases hd : g.blocks.find? b with
    | none => rfl
    | some d =>
        have hiff : g.parent? o = some b ↔ o ∈ d.ops := by
          rw [← h.op, opsIn_eq hd, Roster.mem_def]
        simp only [Option.map_some, hiff]

end Graph

/-! ## The three ends -/

/-- Which end an erasure meets, and what it leaves there.  The subtree and its values are given,
as all three ends speak of them. -/
structure ErasureEnds (s : Store V) (o : Op) (t : Subtree) (produced : List Value)
    (outcome : Outcome (Store V) EditError Unit) : Prop where
  inUse : (∃ v user s', outcome = .refused (.inUse v user) s') ↔
    ∃ v ∈ produced, ∃ user, s.graph.UsedOutside t v user
  blockInUse : (∃ b user s', outcome = .refused (.blockInUse b user) s') ↔
    (¬ ∃ v ∈ produced, ∃ user, s.graph.UsedOutside t v user) ∧
      ∃ b user, s.graph.BranchedOutside t b user
  done : (∃ s', outcome = .done () s') ↔
    (¬ ∃ v ∈ produced, ∃ user, s.graph.UsedOutside t v user) ∧
      ¬ ∃ b user, s.graph.BranchedOutside t b user
  /-- The error names a use from outside. -/
  of_inUse : ∀ {v user s'}, outcome = .refused (.inUse v user) s' →
    v ∈ produced ∧ s.graph.UsedOutside t v user
  /-- The error names a branch from outside. -/
  of_blockInUse : ∀ {b user s'}, outcome = .refused (.blockInUse b user) s' →
    s.graph.BranchedOutside t b user
  of_refused : ∀ {e s'}, outcome = .refused e s' → s' = s
  of_done : ∀ {s'}, outcome = .done () s' →
    s'.next = s.next ∧ s.graph.Lost o t produced s'.graph

namespace ErasureEnds

variable {s : Store V} {o : Op} {t : Subtree} {produced : List Value}

theorem ofInUse {v : Value} {user : Op} (hv : v ∈ produced)
    (hused : s.graph.UsedOutside t v user) :
    ErasureEnds s o t produced (.refused (.inUse v user) s) where
  inUse := iff_of_true ⟨v, user, s, rfl⟩ ⟨v, hv, user, hused⟩
  blockInUse := iff_of_false (by simp) fun h => h.1 ⟨v, hv, user, hused⟩
  done := iff_of_false (by simp) fun h => h.1 ⟨v, hv, user, hused⟩
  of_inUse := by
    rintro _ _ _ heq
    cases heq
    exact ⟨hv, hused⟩
  of_blockInUse heq := by cases heq
  of_refused heq := by
    cases heq
    rfl
  of_done heq := by cases heq

theorem ofBlockInUse {b : Block} {user : Op}
    (hunused : ∀ v ∈ produced, ∀ user, ¬ s.graph.UsedOutside t v user)
    (hbranched : s.graph.BranchedOutside t b user) :
    ErasureEnds s o t produced (.refused (.blockInUse b user) s) where
  inUse := iff_of_false (by simp) (by simpa using hunused)
  blockInUse := iff_of_true ⟨b, user, s, rfl⟩ ⟨by simpa using hunused, b, user, hbranched⟩
  done := iff_of_false (by simp) fun h => h.2 ⟨b, user, hbranched⟩
  of_inUse heq := by cases heq
  of_blockInUse := by
    rintro _ _ _ heq
    cases heq
    exact hbranched
  of_refused heq := by
    cases heq
    rfl
  of_done heq := by cases heq

theorem ofDone {g' : Graph V}
    (hunused : ∀ v ∈ produced, ∀ user, ¬ s.graph.UsedOutside t v user)
    (hunbranched : ∀ b user, ¬ s.graph.BranchedOutside t b user)
    (hlost : s.graph.Lost o t produced g') :
    ErasureEnds s o t produced (.done () ⟨g', s.next⟩) where
  inUse := iff_of_false (by simp) (by simpa using hunused)
  blockInUse := iff_of_false (by simp) fun h => h.2.elim fun b h => h.elim (hunbranched b)
  done := iff_of_true ⟨_, rfl⟩ ⟨by simpa using hunused, by simpa using hunbranched⟩
  of_inUse heq := by cases heq
  of_blockInUse heq := by cases heq
  of_refused heq := by cases heq
  of_done := by
    rintro _ heq
    cases heq
    exact ⟨rfl, hlost⟩

end ErasureEnds

open Edit

/-- An erasure is refused iff something outside uses a value of the subtree or branches to one of
its blocks; otherwise it takes away the subtree, what it produces and all links to it. -/
theorem Reachable.erasureEnds [OpVerifier V] {s : Store V} (h : Reachable s) {o : Op}
    (ho : s.graph.ops.contains o = true) :
    ∃ t produced, s.graph.Collected o t produced ∧
      ErasureEnds s o t produced ((eraseOp o).run s) := by
  have hs := h.sound
  obtain ⟨t, produced, ht, hproduced⟩ := hs.exists_producedBy_subtree ho
  refine ⟨t, produced, Graph.collected_of_walk hs.owned hs.acyclic ht hproduced, ?_⟩
  refine (faultless_eraseOp hs ho).of_ends (ends_eraseOp hs ?inUse ?blockInUse ?done)
  -- The walk has one result, so the subtree that the edit speaks of is the one given here.
  case inUse =>
    intro t' produced' ht' hproduced' v hv user hused
    cases ht.symm.trans ht'
    cases hproduced.symm.trans hproduced'
    exact .ofInUse hv hused
  case blockInUse =>
    intro t' produced' ht' hproduced' hunused b user hbranched
    cases ht.symm.trans ht'
    cases hproduced.symm.trans hproduced'
    exact .ofBlockInUse hunused hbranched
  case done =>
    intro t' produced' ht' hproduced' hunused hunbranched
    cases ht.symm.trans ht'
    cases hproduced.symm.trans hproduced'
    exact .ofDone hunused hunbranched (hs.owned.lost_prune o t produced)

theorem run_eraseOp_sum : (eraseOp ⟨2⟩).run Store.sample =
    .refused (.inUse ⟨2⟩ ⟨3⟩) Store.sample := by
  decide +kernel

theorem run_eraseOp_function : (eraseOp ⟨1⟩).run Store.sample =
    .done () ⟨.empty, Store.sample.next⟩ := by
  decide +kernel

/-- The sum is kept for the terminator, while the function goes with both of them. -/
theorem Reachable.erasureEnds_sample : Reachable Store.sample ∧
    Store.sample.graph.ops.contains ⟨2⟩ = true ∧ Store.sample.graph.ops.contains ⟨1⟩ = true ∧
    (∃ t produced, Store.sample.graph.Collected ⟨2⟩ t produced ∧
      (⟨2⟩ : Value) ∈ produced ∧ Store.sample.graph.UsedOutside t ⟨2⟩ ⟨3⟩) ∧
    ∃ t produced, Store.sample.graph.Collected ⟨1⟩ t produced ∧
      Store.sample.graph.Lost ⟨1⟩ t produced .empty := by
  have hsum : Store.sample.graph.ops.contains ⟨2⟩ = true := by decide +kernel
  have hfunction : Store.sample.graph.ops.contains ⟨1⟩ = true := by decide +kernel
  refine ⟨reachable_sample, hsum, hfunction, ?_, ?_⟩
  · obtain ⟨t, produced, hcollected, hends⟩ := Reachable.erasureEnds reachable_sample hsum
    exact ⟨t, produced, hcollected, hends.of_inUse run_eraseOp_sum⟩
  · obtain ⟨t, produced, hcollected, hends⟩ := Reachable.erasureEnds reachable_sample hfunction
    exact ⟨t, produced, hcollected, (hends.of_done run_eraseOp_function).2⟩

end RegionIR
