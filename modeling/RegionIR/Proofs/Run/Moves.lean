import RegionIR.Proofs.Run.CycleChecks

/-!
# Moving an operation

A move looks at the graph before it takes the operation out, yet it ends as if
the operation had been taken out first and inserted then.  Both ways leave the
same graph, and each of them is done just where that graph has no cycle.

The way back is a move as well.  What it leaves is the graph from before, which
has no cycle, so nothing more has to be checked to see that it is done.

## Main results

* `Graph.Moved` — the entries of a graph after a move.
* `Reachable.moveEnds` — when a move is done, what it leaves, and the way back.
-/

namespace RegionIR

open Edit

variable {V : Type}

/-! ## What a move leaves -/

/-- An operation has moved from one block to a position of another, or of the same block.  The
others keep their order, and no entry but these three has changed. -/
structure Graph.Moved (g : Graph V) (b : Block) (o : Op) (target : Block) (i : Nat)
    (g' : Graph V) : Prop where
  values : g'.values = g.values
  regions : g'.regions = g.regions
  op : ∀ x, g'.ops.find? x =
    (g.ops.find? x).map fun d => if x = o then { d with parent := some target } else d
  inserted : ∀ {d}, g.blocks.find? target = some d → ∃ ops,
    g'.blocks.find? target = some { d with ops := ops } ∧ ops.items[i]? = some o ∧
      ops.items.erase o = d.ops.items.erase o
  removed : b ≠ target →
    g'.blocks.find? b = (g.blocks.find? b).map fun d => { d with ops := d.ops.remove o }
  other : ∀ {x}, x ≠ b → x ≠ target → g'.blocks.find? x = g.blocks.find? x

namespace Graph.Owned

variable {g : Graph V} {b : Block} {o : Op} (target : Block) (i : Nat)

variable {target i} in
theorem moved (h : g.Owned) (hparent : g.parent? o = some b)
    (hi : i ≤ ((g.opsIn target).erase o).length) :
    g.Moved b o target i ((g.takeOp b o).placeOp target i o) where
  values := rfl
  regions := rfl
  op := by
    intro x
    simp only [Graph.takeOp, Graph.placeOp, ops_modifyOp, ops_modifyBlock, Table.find?_modify]
    by_cases hx : x = o
    · subst hx
      cases g.ops.find? x <;> simp
    · simp [hx]
  inserted := by
    intro d hd
    rw [opsIn_eq hd, ← Roster.items_remove] at hi
    have hentry : ((g.takeOp b o).placeOp target i o).blocks.find? target =
        some { d with ops := (d.ops.remove o).place i o } := by
      simp only [Graph.takeOp, Graph.placeOp, blocks_modifyOp, blocks_modifyBlock,
        Table.find?_modify]
      by_cases heq : target = b
      · simp [← heq, hd]
      · -- The target does not have the operation yet.
        have hnot : o ∉ d.ops.items := by
          rw [← opsIn_eq hd, h.op, hparent]
          exact fun hb => heq (Option.some.inj hb).symm
        simp [heq, hd, Roster.remove_of_not_mem hnot]
    have hremoved := d.ops.not_mem_remove o
    refine ⟨_, hentry, Roster.getElem?_items_place hremoved hi, ?_⟩
    exact congrArg Roster.items (Roster.remove_place hremoved i)
  removed := by
    intro hne
    simp [Graph.takeOp, Graph.placeOp, Table.find?_modify, hne]
  other := by
    intro x hb htarget
    simp [Graph.takeOp, Graph.placeOp, Table.find?_modify, hb, htarget]

/-- Taken out again, an operation that has moved might as well not have come. -/
theorem takeOp_moved (h : g.Owned) (hparent : g.parent? o = some b) :
    ((g.takeOp b o).placeOp target i o).takeOp target o = g.takeOp b o :=
  takeOp_placeOp (parent?_takeOp_self g b o) (h.not_mem_opsIn_takeOp hparent target) i

theorem parent?_moved (ho : g.ops.contains o = true) :
    ((g.takeOp b o).placeOp target i o).parent? o = some target := by
  have hstill : (g.takeOp b o).ops.contains o = true := (live_takeOp (x := .op o) b o).2 ho
  rw [parent?_placeOp hstill, if_pos rfl]

end Graph.Owned

/-! ## Taking out, and then inserting -/

variable {s : Store V} {b target : Block} {o : Op}

/-- An operation that was taken out is inserted just where it can be moved. -/
theorem run_removeOp_insertOp_eq_done_iff (hs : s.Sound)
    (hb : s.graph.blocks.contains b = true) (ho : s.graph.ops.contains o = true)
    (htarget : s.graph.blocks.contains target = true) (i : Nat) {s' : Store V} :
    (do removeOp b o; insertOp target i o : Edit V Unit).run s = .done () s' ↔
      (spliceOp b o target i).run s = .done () s' := by
  rw [(linkCheck_spliceOp hs hb ho htarget i).eq_done_iff]
  by_cases hparent : s.graph.parent? o = some b
  · have hremove : (removeOp b o).run s = .done () ⟨s.graph.takeOp b o, s.next⟩ :=
      (faultless_removeOp hb ho).of_ends (P := (· = .done () _))
        (ends_removeOp (fun hapart => absurd hparent hapart) fun _ _ _ => rfl)
    have htaken : (⟨s.graph.takeOp b o, s.next⟩ : Store V).Sound :=
      hs.leads (Store.Leads.change (.refl s) (.takeOp hparent))
    have hlive : (s.graph.takeOp b o).blocks.contains target = true :=
      (Graph.live_takeOp (x := .block target) b o).2 htarget
    have hstill : (s.graph.takeOp b o).ops.contains o = true :=
      (Graph.live_takeOp (x := .op o) b o).2 ho
    rw [Action.run_bind_of_done _ hremove, (linkCheck_insertOp htaken hlive hstill i).eq_done_iff]
    simp only [hparent, Graph.parent?_takeOp_self, hs.owned.opsIn_takeOp hparent, true_and]
  · have hremove : (removeOp b o).run s = .refused (.opNotOwned o b) s :=
      (faultless_removeOp hb ho).of_ends (P := (· = .refused _ _))
        (ends_removeOp (fun _ => rfl) fun hb' => absurd hb' hparent)
    rw [Action.run_bind_of_refused _ hremove]
    exact iff_of_false (by simp) fun h => hparent h.1.1.1

/-! ## The guarantee -/

/-- When a move is done and what comes of it. -/
structure MoveEnds (s : Store V) (b : Block) (o : Op) (target : Block) (i : Nat) : Prop where
  done : (∃ s', (spliceOp b o target i).run s = .done () s') ↔
    o ∈ s.graph.opsIn b ∧ i ≤ ((s.graph.opsIn target).erase o).length ∧
      ¬ s.graph.Within (.block target) (.op o)
  /-- The operation might as well be taken out first. -/
  in_two_steps : ∀ {s'}, (spliceOp b o target i).run s = .done () s' ↔
    (do removeOp b o; insertOp target i o : Edit V Unit).run s = .done () s'
  of_done : ∀ {s'}, (spliceOp b o target i).run s = .done () s' →
    s'.next = s.next ∧ s.graph.Moved b o target i s'.graph
  /-- Moved back to where it stood, the operation leaves no trace. -/
  back : ∀ {s' j}, (spliceOp b o target i).run s = .done () s' →
    (s.graph.opsIn b)[j]? = some o → (spliceOp target o b j).run s' = .done () s

/-- A move is a removal and an insertion in one, and can be taken back. -/
theorem Reachable.moveEnds [OpVerifier V] (h : Reachable s)
    (hb : s.graph.blocks.contains b = true) (ho : s.graph.ops.contains o = true)
    (htarget : s.graph.blocks.contains target = true) (i : Nat) :
    MoveEnds s b o target i where
  done := by
    have hcheck := linkCheck_spliceOp h.sound hb ho htarget i
    rw [h.sound.owned.op, ← and_assoc]
    constructor
    · rintro ⟨s', hrun⟩
      obtain ⟨⟨hallowed, hacyclic⟩, -⟩ := hcheck.eq_done_iff.1 hrun
      exact ⟨hallowed, (h.sound.moveOp_iff hallowed.1 htarget i).1 hacyclic⟩
    · rintro ⟨hallowed, hapart⟩
      have hacyclic := (h.sound.moveOp_iff hallowed.1 htarget i).2 hapart
      exact ⟨_, hcheck.eq_done_iff.2 ⟨⟨hallowed, hacyclic⟩, rfl⟩⟩
  in_two_steps := (run_removeOp_insertOp_eq_done_iff h.sound hb ho htarget i).symm
  of_done := by
    intro s' hrun
    obtain ⟨⟨hallowed, -⟩, rfl⟩ := (linkCheck_spliceOp h.sound hb ho htarget i).eq_done_iff.1 hrun
    exact ⟨rfl, h.sound.owned.moved hallowed.1 hallowed.2⟩
  back := by
    intro s' j hrun hj
    have hs' : s'.Sound := (h.done (.spliceOp b o target i) hrun).sound
    obtain ⟨⟨⟨hparent, -⟩, -⟩, rfl⟩ :=
      (linkCheck_spliceOp h.sound hb ho htarget i).eq_done_iff.1 hrun
    have hlive {x : Entity} (hx : s.graph.Live x) :
        ((s.graph.takeOp b o).placeOp target i o).Live x :=
      (Graph.live_placeOp target i o).2 ((Graph.live_takeOp b o).2 hx)
    have hparent' := Graph.Owned.parent?_moved (b := b) target i ho
    have htaken := h.sound.owned.takeOp_moved target i hparent
    have hrestored : (((s.graph.takeOp b o).placeOp target i o).takeOp target o).placeOp b j o =
        s.graph := by
      rw [htaken, Graph.placeOp_takeOp hparent hj]
    have hle : j ≤ ((((s.graph.takeOp b o).placeOp target i o).opsIn b).erase o).length := by
      rw [← hs'.owned.opsIn_takeOp hparent', htaken, h.sound.owned.opsIn_takeOp hparent,
        List.length_erase_of_mem (List.mem_of_getElem? hj)]
      obtain ⟨hlt, -⟩ := List.getElem?_eq_some_iff.1 hj
      omega
    refine (linkCheck_spliceOp hs' (hlive (x := .block target) htarget) (hlive (x := .op o) ho)
      (hlive (x := .block b) hb) j).eq_done_iff.2 ⟨⟨⟨hparent', hle⟩, ?_⟩, ?_⟩
    · dsimp only
      rw [hrestored]
      exact h.sound.acyclic
    · rw [hrestored]

/-- The last of two operations is moved to the front, and back behind the other one. -/
theorem Reachable.moveEnds_sample : Reachable Store.sample ∧
    Store.sample.graph.blocks.contains ⟨1⟩ = true ∧ Store.sample.graph.ops.contains ⟨2⟩ = true ∧
    ∃ s', (spliceOp ⟨1⟩ ⟨2⟩ ⟨1⟩ 0).run Store.sample = .done () s' ∧
      Store.sample.graph.Moved ⟨1⟩ ⟨2⟩ ⟨1⟩ 0 s'.graph ∧ s' ≠ Store.sample ∧
      (spliceOp ⟨1⟩ ⟨2⟩ ⟨1⟩ 1).run s' = .done () Store.sample := by
  have hb : Store.sample.graph.blocks.contains ⟨1⟩ = true := by decide +kernel
  have ho : Store.sample.graph.ops.contains ⟨2⟩ = true := by decide +kernel
  have hends := Reachable.moveEnds reachable_sample hb ho hb 0
  have hrun : (spliceOp ⟨1⟩ ⟨2⟩ ⟨1⟩ 0).run Store.sample =
      .done () ⟨(Store.sample.graph.takeOp ⟨1⟩ ⟨2⟩).placeOp ⟨1⟩ 0 ⟨2⟩, Store.sample.next⟩ := by
    decide +kernel
  have hstood : (Store.sample.graph.opsIn ⟨1⟩)[1]? = some ⟨2⟩ := by decide +kernel
  exact ⟨reachable_sample, hb, ho, _, hrun, (hends.of_done hrun).2, by decide +kernel,
    hends.back hrun hstood⟩

end RegionIR
