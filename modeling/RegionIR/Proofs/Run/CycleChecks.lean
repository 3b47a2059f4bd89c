import RegionIR.Proofs.Graph.Subtrees
import RegionIR.Proofs.Run.Guarantees

/-!
# Cycle checks are exact

Before an entity is linked into a container, a walk up from the container looks
for the entity.  It follows parents, owners and holders, while the walk down
follows the lists; both find the same entities, since a link and the list that
it stands for agree.

An edit that links an entity is therefore refused for a cycle just where the
new link would close one.  A move is checked before the operation is taken out
of its block, which makes no difference: the links to the operation that it
drops are on no path from the operation.

## Main results

* `LinkCheck` — one edit, and the graph that it would leave.
* `Reachable.cycleChecks` — the walks agree, and all three edits are checked exactly.
-/

namespace RegionIR

open Edit

variable {V : Type}

/-! ## One edit -/

/-- The outcome of an edit that links an entity.  If all other checks pass, it is refused for a
cycle just where some entity would be nested in itself, and else the link is made. -/
structure LinkCheck (s : Store V) (cycle : EditError) (allowed : Prop) (linked : Graph V)
    (outcome : Outcome (Store V) EditError Unit) : Prop where
  refused : (∃ s', outcome = .refused cycle s') ↔ allowed ∧ ∃ x, linked.Encloses x x
  done : (∃ s', outcome = .done () s') ↔ allowed ∧ ¬ ∃ x, linked.Encloses x x
  of_done : ∀ {s'}, outcome = .done () s' → s' = ⟨linked, s.next⟩
  of_refused : ∀ {e s'}, outcome = .refused e s' → s' = s

namespace LinkCheck

variable {s : Store V} {cycle : EditError} {allowed : Prop} {linked : Graph V}

/-- Another check has failed. -/
theorem ofBarred {e : EditError} (hbarred : ¬ allowed) (hne : e ≠ cycle) :
    LinkCheck s cycle allowed linked (.refused e s) where
  refused := by
    refine iff_of_false ?_ fun h => hbarred h.1
    rintro ⟨s', heq⟩
    exact hne (Outcome.refused.inj heq).1
  done := iff_of_false (by simp) fun h => hbarred h.1
  of_done heq := by cases heq
  of_refused heq := by
    cases heq
    rfl

theorem ofCycle (hallowed : allowed) (hcycle : ¬ linked.Acyclic) :
    LinkCheck s cycle allowed linked (.refused cycle s) where
  refused := iff_of_true ⟨s, rfl⟩ ⟨hallowed, Classical.not_forall_not.1 hcycle⟩
  done := iff_of_false (by simp) fun h => h.2 (Classical.not_forall_not.1 hcycle)
  of_done heq := by cases heq
  of_refused heq := by
    cases heq
    rfl

theorem ofDone (hallowed : allowed) (hacyclic : linked.Acyclic) :
    LinkCheck s cycle allowed linked (.done () ⟨linked, s.next⟩) where
  refused := iff_of_false (by simp) fun h => h.2.elim hacyclic
  done := iff_of_true ⟨_, rfl⟩ ⟨hallowed, not_exists.2 hacyclic⟩
  of_done heq := by
    cases heq
    rfl
  of_refused heq := by cases heq

theorem eq_done_iff {outcome : Outcome (Store V) EditError Unit}
    (h : LinkCheck s cycle allowed linked outcome) {s' : Store V} :
    outcome = .done () s' ↔ (allowed ∧ linked.Acyclic) ∧ s' = ⟨linked, s.next⟩ := by
  constructor
  · intro heq
    obtain ⟨hallowed, hacyclic⟩ := h.done.1 ⟨s', heq⟩
    exact ⟨⟨hallowed, not_exists.1 hacyclic⟩, h.of_done heq⟩
  · rintro ⟨⟨hallowed, hacyclic⟩, rfl⟩
    obtain ⟨s', heq⟩ := h.done.2 ⟨hallowed, not_exists.2 hacyclic⟩
    rw [heq, h.of_done heq]

end LinkCheck

/-! ## The three edits -/

variable {s : Store V}

/-- What is nested in an operation is the same after it was taken out, so a move closes a cycle just
where the target is within the operation before the move. -/
theorem Graph.Sound.moveOp_iff {g : Graph V} {n : NextHandles} (hs : g.Sound n)
    {b target : Block} {o : Op} (hparent : g.parent? o = some b)
    (htarget : g.blocks.contains target = true) (i : Nat) :
    ((g.takeOp b o).placeOp target i o).Acyclic ↔ ¬ g.Within (.block target) (.op o) := by
  have hlive : (g.takeOp b o).blocks.contains target = true :=
    (Graph.live_takeOp (x := .block target) b o).2 htarget
  rw [← hs.acyclic.within_takeOp_iff b]
  exact (hs.acyclic.takeOp b o).placeOp_iff hlive (hs.owned.not_mem_opsIn_takeOp hparent target) i

theorem linkCheck_insertOp (hs : s.Sound) {b : Block} {o : Op}
    (hb : s.graph.blocks.contains b = true) (ho : s.graph.ops.contains o = true) (i : Nat) :
    LinkCheck s (.opCycle o b) (s.graph.parent? o = none ∧ i ≤ (s.graph.opsIn b).length)
      (s.graph.placeOp b i o) ((insertOp b i o).run s) := by
  have hplaced (hfree : s.graph.parent? o = none) :
      (s.graph.placeOp b i o).Acyclic ↔ ¬ s.graph.Within (.block b) (.op o) :=
    hs.acyclic.placeOp_iff hb (hs.owned.not_mem_opsIn hfree b) i
  refine (faultless_insertOp hs hb ho i).of_ends (ends_insertOp hs ?_ ?_ ?_ ?_)
  · intro p hp
    refine .ofBarred (fun hallowed => ?_) EditError.noConfusion
    exact Option.some_ne_none p (hp.symm.trans hallowed.1)
  · intro _ hshort
    exact .ofBarred (fun hallowed => Nat.not_lt.2 hallowed.2 hshort) EditError.noConfusion
  · intro hfree hle hin
    exact .ofCycle ⟨hfree, hle⟩ fun hacyclic => (hplaced hfree).1 hacyclic hin
  · intro hfree hle hapart _ _
    exact .ofDone ⟨hfree, hle⟩ ((hplaced hfree).2 hapart)

/-- Behind the last operation of a block there is always room for one that is in no block. -/
theorem run_pushOpBack_eq_done_iff (hs : s.Sound) {b : Block} {o : Op}
    (hb : s.graph.blocks.contains b = true) (ho : s.graph.ops.contains o = true)
    {s' : Store V} : (pushOpBack b o).run s = .done () s' ↔
      (s.graph.parent? o = none ∧ ¬ s.graph.Within (.block b) (.op o)) ∧
        s' = ⟨s.graph.placeOp b (s.graph.opsIn b).length o, s.next⟩ := by
  rw [run_pushOpBack hb, (linkCheck_insertOp hs hb ho _).eq_done_iff]
  refine and_congr_left fun _ => ⟨?_, ?_⟩
  · rintro ⟨⟨hfree, -⟩, hacyclic⟩
    exact ⟨hfree, (hs.acyclic.placeOp_iff hb (hs.owned.not_mem_opsIn hfree b) _).1 hacyclic⟩
  · rintro ⟨hfree, hapart⟩
    exact ⟨⟨hfree, Nat.le_refl _⟩,
      (hs.acyclic.placeOp_iff hb (hs.owned.not_mem_opsIn hfree b) _).2 hapart⟩

theorem linkCheck_spliceOp (hs : s.Sound) {b target : Block} {o : Op}
    (hb : s.graph.blocks.contains b = true) (ho : s.graph.ops.contains o = true)
    (htarget : s.graph.blocks.contains target = true) (i : Nat) :
    LinkCheck s (.opCycle o target)
      (s.graph.parent? o = some b ∧ i ≤ ((s.graph.opsIn target).erase o).length)
      ((s.graph.takeOp b o).placeOp target i o) ((spliceOp b o target i).run s) := by
  refine (faultless_spliceOp hs hb ho htarget i).of_ends (ends_spliceOp hs ?_ ?_ ?_ ?_)
  · intro hapart
    exact .ofBarred (fun hallowed => hapart hallowed.1) EditError.noConfusion
  · intro _ hshort
    exact .ofBarred (fun hallowed => Nat.not_lt.2 hallowed.2 hshort) EditError.noConfusion
  · intro hparent hle hin
    exact .ofCycle ⟨hparent, hle⟩ fun hacyclic => (hs.moveOp_iff hparent htarget i).1 hacyclic hin
  · intro hparent hle hapart _ _
    exact .ofDone ⟨hparent, hle⟩ ((hs.moveOp_iff hparent htarget i).2 hapart)

theorem linkCheck_insertBlock (hs : s.Sound) {r : Region} {b : Block}
    (hr : s.graph.regions.contains r = true) (hb : s.graph.blocks.contains b = true) (i : Nat) :
    LinkCheck s (.blockCycle b r) (s.graph.owner? b = none ∧ i ≤ (s.graph.blocksIn r).length)
      (s.graph.placeBlock r i b) ((insertBlock r i b).run s) := by
  have hplaced (hfree : s.graph.owner? b = none) :
      (s.graph.placeBlock r i b).Acyclic ↔ ¬ s.graph.Within (.region r) (.block b) :=
    hs.acyclic.placeBlock_iff hr (hs.owned.not_mem_blocksIn hfree r) i
  refine (faultless_insertBlock hs hr hb i).of_ends (ends_insertBlock hs ?_ ?_ ?_ ?_)
  · intro r' hr'
    refine .ofBarred (fun hallowed => ?_) EditError.noConfusion
    exact Option.some_ne_none r' (hr'.symm.trans hallowed.1)
  · intro _ hshort
    exact .ofBarred (fun hallowed => Nat.not_lt.2 hallowed.2 hshort) EditError.noConfusion
  · intro hfree hle hin
    exact .ofCycle ⟨hfree, hle⟩ fun hacyclic => (hplaced hfree).1 hacyclic hin
  · intro hfree hle hapart _ _
    exact .ofDone ⟨hfree, hle⟩ ((hplaced hfree).2 hapart)

/-! ## The guarantee -/

/-- The walks up find what the walk down collects, and the edits that they guard are refused for a
cycle just where they would close one. -/
structure CycleChecks (s : Store V) : Prop where
  blockInside : ∀ {b o d}, s.graph.blocks.contains b = true → s.graph.ops.find? o = some d →
    ∃ inside t, s.graph.blockInside b d.regions = .ok inside ∧ s.graph.subtree o = .ok t ∧
      (inside = true ↔ b ∈ t.blocks)
  regionInside : ∀ {r b e}, s.graph.regions.contains r = true → s.graph.blocks.find? b = some e →
    ∃ inside, s.graph.regionInside r b = .ok inside ∧
      (∀ o ∈ e.ops.items, ∃ t, s.graph.subtree o = .ok t) ∧
      (inside = true ↔ ∃ o ∈ e.ops.items, ∃ t, s.graph.subtree o = .ok t ∧ r ∈ t.regions)
  insertOp : ∀ {b o}, s.graph.blocks.contains b = true → s.graph.ops.contains o = true → ∀ i,
    LinkCheck s (.opCycle o b) (s.graph.parent? o = none ∧ i ≤ (s.graph.opsIn b).length)
      (s.graph.placeOp b i o) ((insertOp b i o).run s)
  /-- The position counts without the operation, which stands in the target if it is moved within
  its block. -/
  spliceOp : ∀ {b target o}, s.graph.blocks.contains b = true → s.graph.ops.contains o = true →
    s.graph.blocks.contains target = true → ∀ i,
      LinkCheck s (.opCycle o target)
        (s.graph.parent? o = some b ∧ i ≤ ((s.graph.opsIn target).erase o).length)
        ((s.graph.takeOp b o).placeOp target i o) ((spliceOp b o target i).run s)
  insertBlock : ∀ {r b}, s.graph.regions.contains r = true → s.graph.blocks.contains b = true →
    ∀ i, LinkCheck s (.blockCycle b r)
      (s.graph.owner? b = none ∧ i ≤ (s.graph.blocksIn r).length) (s.graph.placeBlock r i b)
      ((insertBlock r i b).run s)

/-- Cycle checks of reachable graphs miss nothing and raise no false alarm. -/
theorem Reachable.cycleChecks [OpVerifier V] (h : Reachable s) : CycleChecks s where
  blockInside _ hd := Graph.blockInside_iff_mem_subtree h.sound.owned h.sound.acyclic hd _
  regionInside hr he := Graph.regionInside_iff_mem_subtree h.sound.owned h.sound.acyclic hr he
  insertOp hb ho i := linkCheck_insertOp h.sound hb ho i
  spliceOp hb ho htarget i := linkCheck_spliceOp h.sound hb ho htarget i
  insertBlock hr hb i := linkCheck_insertBlock h.sound hr hb i

/-- The function can not enter its own body: it would be nested in itself. -/
theorem Reachable.cycleChecks_sample : Reachable Store.sample ∧
    Store.sample.graph.blocks.contains ⟨1⟩ = true ∧ Store.sample.graph.ops.contains ⟨1⟩ = true ∧
    (insertOp ⟨1⟩ 0 ⟨1⟩).run Store.sample = .refused (.opCycle ⟨1⟩ ⟨1⟩) Store.sample ∧
    ∃ x, (Store.sample.graph.placeOp ⟨1⟩ 0 ⟨1⟩).Encloses x x := by
  have hb : Store.sample.graph.blocks.contains ⟨1⟩ = true := by decide +kernel
  have ho : Store.sample.graph.ops.contains ⟨1⟩ = true := by decide +kernel
  have hrun : (insertOp ⟨1⟩ 0 ⟨1⟩).run Store.sample =
      .refused (.opCycle ⟨1⟩ ⟨1⟩) Store.sample := by decide +kernel
  have hcheck := (Reachable.cycleChecks reachable_sample).insertOp hb ho 0
  exact ⟨reachable_sample, hb, ho, hrun, (hcheck.refused.1 ⟨_, hrun⟩).2⟩

end RegionIR
