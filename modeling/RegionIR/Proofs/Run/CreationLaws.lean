import RegionIR.Proofs.Edit.Erase
import RegionIR.Proofs.Run.Creation
import RegionIR.Proofs.Run.CycleChecks

/-!
# Laws of creation

A creation can be taken back: as long as the new operation holds no region,
its erasure gives back the graph as it was.  Every list got its new entries at
the end, and nothing but the operation and its results has a link to them.

And a creation in a block is a creation without a parent, followed by an
insertion at the end of the block.  The two are guarded in different graphs.
In place, the rule asks whether one of the regions is around the block, before
the operation is there; the insertion asks it of the operation, which holds the
regions by then.  The operation itself is on no path from one of its regions,
so the answers agree.

## Main results

* `Graph.Sound.cut_created` — cut out again, a new operation leaves no trace.
* `Reachable.run_eraseOp_of_run_create` — erasing undoes creating.
* `OpVerifier.IgnoresParent`, `Reachable.run_create_inBlock_iff` — creating in a block is creating
  and pushing.
-/

namespace RegionIR

open Edit

variable {V : Type}

/-! ## Operations that nobody knows -/

namespace Graph

variable {g : Graph V} {n : NextHandles} {o : Op} {first : Nat} {r : OpRequest V}

section Forget

variable (hs : g.Sound n) (hfresh : g.ops.find? o = none)
include hs hfresh

/-- No entry has a link to an operation that is not in the graph. -/
theorem Sound.forget_op {x : Op} {d : OpData V} (hd : g.ops.find? x = some d) :
    d.forget [o] = d := by
  cases hnames : d.symbols with
  | none => rw [OpData.forget, hnames, Option.map_none, ← hnames]
  | some names =>
      have hall : ∀ k y, names.find? k = some y → decide (y ∉ [o]) = true := by
        intro k y hy
        have hname := hs.symbols.entry ((table?_eq hd).trans hnames) hy
        rw [decide_eq_true_eq, List.mem_singleton]
        rintro rfl
        rw [symbolName?, hfresh] at hname
        cases hname
      rw [OpData.forget, hnames, Option.map_some, Table.filterValues_eq_self hall, ← hnames]

/-- A use list forgets the slots of the operation, and it had none of them before. -/
theorem Sound.forget_value {v : Value} {d : ValueData} (hd : g.values.find? v = some d)
    (operands : List Value) :
    ({ d with uses := d.uses ++ slotsOf o operands v } : ValueData).forget [o] = d := by
  have hold : d.uses.filter (fun u => decide (u.user ∉ [o])) = d.uses := by
    refine List.filter_eq_self.2 fun u hu => ?_
    have hslot := (hs.uses.mem (uses?_eq hd)).1 hu
    rw [decide_eq_true_eq, List.mem_singleton]
    intro huser
    rw [slot?, huser, hfresh] at hslot
    cases hslot
  have hnew : (slotsOf o operands v).filter (fun u => decide (u.user ∉ [o])) = [] := by
    refine List.filter_eq_nil_iff.2 fun u hu => ?_
    simpa using (mem_slotsOf.1 hu).1
  simp only [ValueData.forget, List.filter_append, hold, hnew, List.append_nil]

theorem Sound.not_mem_ops {b : Block} {d : BlockData} (hd : g.blocks.find? b = some d) :
    o ∉ d.ops.items := by
  rw [← opsIn_eq hd]
  exact hs.owned.not_mem_opsIn (parent?_eq_none hfresh) b

/-- A block forgets the operation, which has come to the end of its list or not at all. -/
theorem Sound.forget_block {b : Block} {d : BlockData} (hd : g.blocks.find? b = some d)
    {ops : Roster Op} (hops : ops.items = d.ops.items ++ [o] ∨ ops.items = d.ops.items) :
    ({ d with ops := ops } : BlockData).forget [o] = d := by
  have hnot := hs.not_mem_ops hfresh hd
  have hold : d.ops.items.filter (fun x => decide (x ∉ [o])) = d.ops.items := by
    refine List.filter_eq_self.2 fun x hx => ?_
    rw [decide_eq_true_eq, List.mem_singleton]
    exact fun hxo => hnot (hxo ▸ hx)
  have hback : ops.items.filter (fun x => decide (x ∉ [o])) = d.ops.items := by
    rcases hops with hops | hops
    · rw [hops, List.filter_append, hold]
      simp
    · rw [hops, hold]
  exact BlockData.forget_eq hback

end Forget

/-! ## Taking a creation back -/

/-- Cut out again, an operation without regions leaves no trace. -/
theorem Sound.cut_created (hs : g.Sound n) (ho : n.op ≤ o.num) (hfirst : n.value ≤ first)
    (hparent : ∀ b, r.parent = some b → g.blocks.contains b = true) (hregions : r.regions = []) :
    (g.created o first r).cut ⟨[o], [], []⟩ (resultHandles first r.resultTypes.length) = g := by
  have hfresh := hs.bounded.fresh_op ho
  refine ext_find? (fun x => ?ops) (fun v => ?values) (fun b => ?blocks) fun x => ?regions
  case ops =>
    rw [cut, Table.find?_cut, find?_ops_created]
    by_cases hx : x = o
    · rw [if_pos (List.mem_singleton.2 hx), hx, hfresh]
    · rw [if_neg (mt List.mem_singleton.1 hx), if_neg hx]
      exact (Option.map_congr fun d hd => hs.forget_op hfresh hd).trans Option.map_id_apply
  case values =>
    rw [cut, Table.find?_cut, find?_values_created]
    by_cases hv : v ∈ resultHandles first r.resultTypes.length
    · obtain ⟨i, -, rfl⟩ := mem_resultHandles.1 hv
      rw [if_pos hv, hs.bounded.fresh_value (Nat.le_trans hfirst (Nat.le_add_right first i))]
    · rw [if_neg hv, find?_putResults_of_ne hv, Option.map_map]
      exact (Option.map_congr fun d hd => hs.forget_value hfresh hd r.operands).trans
        Option.map_id_apply
  case blocks =>
    rw [cut, Table.find?_cut, if_neg List.not_mem_nil]
    by_cases hb : r.parent = some b
    · obtain ⟨d, hd⟩ := Table.contains_iff.1 (hparent b hb)
      obtain ⟨ops, hentry, hitems⟩ :=
        find?_blocks_created hb hd (hs.not_mem_ops hfresh hd) first
      rw [hentry, hd, Option.map_some, hs.forget_block hfresh hd (Or.inl hitems)]
    · rw [find?_blocks_created_of_ne g o first hb]
      exact (Option.map_congr fun d hd => hs.forget_block hfresh hd (Or.inr rfl)).trans
        Option.map_id_apply
  case regions =>
    rw [cut, Table.find?_cut, if_neg List.not_mem_nil, find?_regions_created, hregions,
      Option.map_id]
    simp

theorem regionsOf_created (g : Graph V) (o : Op) (first : Nat) (r : OpRequest V) :
    (g.created o first r).regionsOf o = r.regions := by
  rw [regionsOf, find?_ops_created, if_pos rfl]
  rfl

/-- Without regions there is nothing to collect but the operation and its results. -/
theorem collected_created (g : Graph V) (o : Op) (first : Nat) (hregions : r.regions = []) :
    (g.created o first r).Collected o ⟨[o], [], []⟩
      (resultHandles first r.resultTypes.length) where
  contains := by
    intro x
    rw [within_op_iff_of_no_regions ((regionsOf_created g o first r).trans hregions)]
    cases x <;> simp [Subtree.Contains]
  mem := by
    intro v
    simp [resultsOf_created]

/-- All uses of the results are the operation's own. -/
theorem loose_created (g : Graph V) (o : Op) (first : Nat) (r : OpRequest V) :
    (g.created o first r).Loose ⟨[o], [], []⟩ (resultHandles first r.resultTypes.length) where
  unused := by
    rintro v hv user ⟨hout, d, hd, u, hu, rfl⟩
    obtain ⟨i, ty, -, -, hresult⟩ := find?_putResults_of_mem hv g o
    rw [find?_values_created, hresult, Option.map_some] at hd
    cases hd
    rw [List.nil_append] at hu
    exact hout (List.mem_singleton.2 (mem_slotsOf.1 hu).1)
  unbranched := by
    rintro b user ⟨-, hb, -⟩
    cases hb

end Graph

/-- An operation without regions that is erased right after its creation is as good as never made:
only its handles are spent. -/
theorem Reachable.run_eraseOp_of_run_create [OpVerifier V] {s : Store V} (h : Reachable s)
    {r : OpRequest V} (hregions : r.regions = []) {o : Op} {s' : Store V}
    (hrun : (create r).run s = .done o s') :
    (eraseOp o).run s' = .done () ⟨s.graph, s'.next⟩ := by
  have hs := h.sound
  obtain ⟨hroom, hmet, rfl, rfl⟩ := (run_create_eq_done_iff hs).1 hrun
  obtain ⟨-, -, -, hparents, -⟩ := OpRequest.forall_demands_iff.1 hmet
  have hop := Nat.le_refl s.next.op
  have hvalue := Nat.le_refl s.next.value
  have hcreated := hs.leads (Store.leads_created hs hroom hmet)
  have hcollected := s.graph.collected_created ⟨s.next.op⟩ s.next.value hregions
  have hloose := s.graph.loose_created ⟨s.next.op⟩ s.next.value r
  refine (run_eraseOp_eq_done_iff hcreated (Graph.contains_created ..) hcollected).2
    ⟨hloose, ?_⟩
  dsimp only
  rw [hcreated.owned.prune_eq_cut (Graph.hangs_of_contains hcollected.contains),
    Graph.Sound.cut_created hs hop hvalue (fun b hb => (hparents b hb).1) hregions]

/-- The sum has an argument twice among its operands, and its own result in between. -/
theorem Reachable.run_eraseOp_of_run_create_sample : Reachable Store.sample ∧
    OpRequest.sampleSum.regions = [] ∧
    ∃ s', (create OpRequest.sampleSum).run Store.sample = .done ⟨5⟩ s' ∧
      s'.graph ≠ Store.sample.graph ∧
      (eraseOp ⟨5⟩).run s' = .done () ⟨Store.sample.graph, s'.next⟩ := by
  have hrun : (create OpRequest.sampleSum).run Store.sample =
      .done ⟨5⟩ ⟨Store.sample.graph.created ⟨5⟩ 3 OpRequest.sampleSum,
        Store.sample.next.past 1⟩ := by
    decide +kernel
  exact ⟨reachable_sample, rfl, _, hrun, by decide +kernel,
    Reachable.run_eraseOp_of_run_create reachable_sample rfl hrun⟩

/-! ## Creating in place -/

/-- An extra verifier that gives the same answer whatever the parent of the operation is. -/
def OpVerifier.IgnoresParent [OpVerifier V] (v : V) : Prop :=
  ∀ (w : OpView V) (parent : Option Block),
    OpVerifier.check v { w with data := { w.data with parent := parent } } = OpVerifier.check v w

/-- The request for an operation that is in no block yet. -/
def OpRequest.detached (r : OpRequest V) : OpRequest V := { r with parent := none }

/-- The request for an operation at the end of a block. -/
def OpRequest.inBlock (r : OpRequest V) (p : Block) : OpRequest V := { r with parent := some p }

section InPlace

variable [OpVerifier V] {s : Store V} {p : Block} {r : OpRequest V}

/-- In a block, a request asks for one thing more: that none of its regions is around the block. -/
theorem OpRequest.demands_inBlock_iff {g : Graph V} {o : Op} {first : Nat}
    (hp : g.blocks.contains p = true)
    (hverifiers : ∀ v ∈ r.verifiers, OpVerifier.IgnoresParent v) :
    (∀ d ∈ (r.inBlock p).demands g o first, d.met) ↔
      (∀ d ∈ r.detached.demands g o first, d.met) ∧
        ∀ x ∈ r.regions, ¬ g.Encloses (.region x) (.block p) := by
  have hcheck : ∀ v ∈ r.verifiers, OpVerifier.check v (g.requestView o first (r.inBlock p)) =
      OpVerifier.check v (g.requestView o first r.detached) :=
    fun v hv => hverifiers v hv (g.requestView o first r.detached) (some p)
  rw [forall_demands_iff, forall_demands_iff]
  constructor
  · rintro ⟨hoperands, hregions, hsuccessors, hparent, htraits, hpass⟩
    refine ⟨⟨hoperands, hregions, hsuccessors, ?_, htraits, fun v hv => ?_⟩, (hparent p rfl).2⟩
    · intro b hb
      cases hb
    · rw [← hcheck v hv]
      exact hpass v hv
  · rintro ⟨⟨hoperands, hregions, hsuccessors, -, htraits, hpass⟩, hapart⟩
    refine ⟨hoperands, hregions, hsuccessors, ?_, htraits, fun v hv => ?_⟩
    · intro b hb
      cases hb
      exact ⟨hp, hapart⟩
    · rw [hcheck v hv]
      exact hpass v hv

/-- A new operation is pushed to a block unless one of its regions is around the block. -/
theorem Edit.run_pushOpBack_created_iff (hs : s.Sound) (hp : s.graph.blocks.contains p = true)
    (hroom : s.next.RoomFor r.resultTypes.length)
    (hmet : ∀ d ∈ r.detached.demands s.graph ⟨s.next.op⟩ s.next.value, d.met) {s' : Store V} :
    (pushOpBack p ⟨s.next.op⟩).run ⟨s.graph.created ⟨s.next.op⟩ s.next.value r.detached,
        s.next.past r.resultTypes.length⟩ = .done () s' ↔
      (∀ x ∈ r.regions, ¬ s.graph.Encloses (.region x) (.block p)) ∧
        s' = ⟨s.graph.created ⟨s.next.op⟩ s.next.value (r.inBlock p),
          s.next.past r.resultTypes.length⟩ := by
  have hmade : (⟨s.graph.created ⟨s.next.op⟩ s.next.value r.detached,
      s.next.past r.resultTypes.length⟩ : Store V).Sound :=
    hs.leads (Store.leads_created hs hroom hmet)
  generalize hg : s.graph.created ⟨s.next.op⟩ s.next.value r.detached = g at *
  have hlive : g.blocks.contains p = true := by
    rw [← hg]
    exact hp
  have hop : g.ops.contains ⟨s.next.op⟩ = true := by
    rw [← hg]
    exact Graph.contains_created ..
  have hfree : g.parent? ⟨s.next.op⟩ = none := by
    rw [← hg, Graph.parent?, Graph.find?_ops_created, if_pos rfl]
    rfl
  have haround : g.Within (.block p) (.op ⟨s.next.op⟩) ↔
      ∃ x ∈ r.regions, s.graph.Encloses (.region x) (.block p) := by
    rw [← hg]
    exact Graph.block_within_linkOp_iff hs (Nat.le_refl s.next.op)
  have hplaced : g.placeOp p (g.opsIn p).length ⟨s.next.op⟩ =
      s.graph.created ⟨s.next.op⟩ s.next.value (r.inBlock p) := by
    rw [← hg]
    rfl
  rw [run_pushOpBack_eq_done_iff hmade hlive hop]
  dsimp only
  rw [haround, hplaced]
  simp [hfree]

/-- An operation that is created in a block is created and then pushed to it. -/
theorem Reachable.run_create_inBlock_iff (h : Reachable s)
    (hp : s.graph.blocks.contains p = true)
    (hverifiers : ∀ v ∈ r.verifiers, OpVerifier.IgnoresParent v) (o : Op) (s' : Store V) :
    (create (r.inBlock p)).run s = .done o s' ↔
      (do
        let o ← create r.detached
        pushOpBack p o
        return o : Edit V Op).run s = .done o s' := by
  have hs := h.sound
  rw [run_create_eq_done_iff hs, OpRequest.demands_inBlock_iff hp hverifiers]
  simp only [Action.run_bind_eq_done_iff, run_create_eq_done_iff hs]
  constructor
  · rintro ⟨hroom, ⟨hmet, hapart⟩, rfl, rfl⟩
    have hpush := (run_pushOpBack_created_iff hs hp hroom hmet).2 ⟨hapart, rfl⟩
    exact ⟨_, _, ⟨hroom, hmet, rfl, rfl⟩, (), _, hpush, rfl⟩
  · rintro ⟨_, _, ⟨hroom, hmet, rfl, rfl⟩, _, _, hpush, hreturn⟩
    obtain ⟨hapart, rfl⟩ := (run_pushOpBack_created_iff hs hp hroom hmet).1 hpush
    cases hreturn
    exact ⟨hroom, ⟨hmet, hapart⟩, rfl, rfl⟩

end InPlace

/-- The sum, whose verifier looks at the types of its operands only. -/
theorem Reachable.run_create_inBlock_sample : Reachable Store.sample ∧
    Store.sample.graph.blocks.contains ⟨1⟩ = true ∧
    (∀ v ∈ OpRequest.sampleSum.verifiers, OpVerifier.IgnoresParent v) ∧
    ∃ s', (create (OpRequest.sampleSum.inBlock ⟨1⟩)).run Store.sample = .done ⟨5⟩ s' ∧
      (do
        let o ← create OpRequest.sampleSum.detached
        pushOpBack ⟨1⟩ o
        return o : Edit DialectVerifier Op).run Store.sample = .done ⟨5⟩ s' := by
  have hp : Store.sample.graph.blocks.contains ⟨1⟩ = true := by decide +kernel
  have hverifiers : ∀ v ∈ OpRequest.sampleSum.verifiers, OpVerifier.IgnoresParent v := by
    intro v hv
    cases List.mem_singleton.1 hv
    exact fun _ _ => rfl
  have hrun : (create (OpRequest.sampleSum.inBlock ⟨1⟩)).run Store.sample =
      .done ⟨5⟩ ⟨Store.sample.graph.created ⟨5⟩ 3 OpRequest.sampleSum,
        Store.sample.next.past 1⟩ := by
    decide +kernel
  exact ⟨reachable_sample, hp, hverifiers, _, hrun,
    (Reachable.run_create_inBlock_iff reachable_sample hp hverifiers _ _).1 hrun⟩

end RegionIR
