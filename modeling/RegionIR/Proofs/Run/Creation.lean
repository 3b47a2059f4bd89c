import RegionIR.Proofs.Run.Guarantees

/-!
# What a creation adds

A creation is done just where all demands on the request are met, and they are
about the graph before it.  If some are not, the error has one record for each
of them, and all that is lost are handles.

What a creation adds is told entry by entry, as for an erasure.  An operation
may have its own results among its operands, so their use lists need not be
empty.

## Main results

* `Graph.Gained` — a graph before and after a request is met.
* `OpRequest.Reported` — the records of a request that is refused.
* `Reachable.creationEnds` — both ends and what each of them promises.
-/

namespace RegionIR

open Edit

variable {V : Type}

namespace Graph

/-! ## The graph with the new operation -/

/-- A graph has got a new operation and its results.  Use lists have got the slots of the operation
at their end, in the order of the slots; the operation is the last one of its parent block, and its
regions name it. -/
structure Gained (g : Graph V) (o : Op) (first : Nat) (r : OpRequest V) (g' : Graph V) : Prop where
  new_op : g.ops.find? o = none
  new_results : ∀ v ∈ resultHandles first r.resultTypes.length, g.values.find? v = none
  op : ∀ x, g'.ops.find? x =
    if x = o then some (r.entry (resultHandles first r.resultTypes.length)) else g.ops.find? x
  result : ∀ {i ty}, r.resultTypes[i]? = some ty → g'.values.find? ⟨first + i⟩ =
    some { ty := ty, origin := .result o i, uses := slotsOf o r.operands ⟨first + i⟩ }
  value : ∀ {v}, v ∉ resultHandles first r.resultTypes.length → g'.values.find? v =
    (g.values.find? v).map fun d => { d with uses := d.uses ++ slotsOf o r.operands v }
  listed : ∀ {b}, r.parent = some b → ∃ d ops, g.blocks.find? b = some d ∧
    g'.blocks.find? b = some { d with ops := ops } ∧ ops.items = d.ops.items ++ [o]
  other : ∀ {b}, r.parent ≠ some b → g'.blocks.find? b = g.blocks.find? b
  region : ∀ x, g'.regions.find? x =
    (g.regions.find? x).map fun d => if x ∈ r.regions then { d with parent := some o } else d

variable {g : Graph V} {n : NextHandles} {o : Op} {first : Nat}

theorem find?_values_created (g : Graph V) (o : Op) (first : Nat) (r : OpRequest V) (v : Value) :
    (g.created o first r).values.find? v =
      ((g.putResults o first r.resultTypes).values.find? v).map
        fun d => { d with uses := d.uses ++ slotsOf o r.operands v } := by
  have hmade := (g.putResults o first r.resultTypes).find?_values_linkOp o
    (r.data (resultHandles first r.resultTypes.length)) v
  unfold created
  cases r.parent <;> exact hmade

theorem find?_regions_created (g : Graph V) (o : Op) (first : Nat) (r : OpRequest V)
    (x : Region) :
    (g.created o first r).regions.find? x =
      (g.regions.find? x).map
        fun d => if x ∈ r.regions then { d with parent := some o } else d := by
  have hmade := (g.putResults o first r.resultTypes).find?_regions_linkOp o
    (r.data (resultHandles first r.resultTypes.length)) x
  unfold created
  cases r.parent <;> exact hmade

theorem find?_ops_created (g : Graph V) (o : Op) (first : Nat) (r : OpRequest V) (x : Op) :
    (g.created o first r).ops.find? x =
      if x = o then some (r.entry (resultHandles first r.resultTypes.length))
      else g.ops.find? x := by
  have hmade : ((g.putResults o first r.resultTypes).linkOp o
      (r.data (resultHandles first r.resultTypes.length))).ops.find? x =
        if x = o then some (r.data (resultHandles first r.resultTypes.length))
        else g.ops.find? x := by
    simp only [linkOp, Table.find?_insert, eq_comm]
    rfl
  rw [← OpRequest.data_eq_entry]
  unfold created
  cases r.parent with
  | none => exact hmade
  | some b =>
      simp only [placeOp, ops_modifyOp, ops_modifyBlock, Table.find?_modify, hmade]
      by_cases hx : x = o <;> simp [hx]

theorem find?_blocks_created_of_ne (g : Graph V) (o : Op) (first : Nat) {r : OpRequest V}
    {b : Block} (hb : r.parent ≠ some b) :
    (g.created o first r).blocks.find? b = g.blocks.find? b := by
  unfold created
  cases hparent : r.parent with
  | none => rfl
  | some b' =>
      have hne : b ≠ b' := fun heq => hb (heq ▸ hparent)
      simp only [placeOp, blocks_modifyOp, blocks_modifyBlock, Table.find?_modify, if_neg hne]
      rfl

/-- The operation is the last one of its parent block, which did not list it before. -/
theorem find?_blocks_created {r : OpRequest V} {b : Block} {d : BlockData}
    (hparent : r.parent = some b) (hd : g.blocks.find? b = some d) (hnot : o ∉ d.ops.items)
    (first : Nat) : ∃ ops, (g.created o first r).blocks.find? b = some { d with ops := ops } ∧
      ops.items = d.ops.items ++ [o] := by
  have hops : ((g.putResults o first r.resultTypes).linkOp o
      (r.data (resultHandles first r.resultTypes.length))).opsIn b = d.ops.items := opsIn_eq hd
  refine ⟨d.ops.place d.ops.items.length o, ?_, ?_⟩
  · unfold created
    rw [hparent]
    dsimp only
    rw [hops]
    simp only [placeOp, blocks_modifyOp, blocks_modifyBlock, Table.find?_modify, if_pos]
    exact congrArg (Option.map _) hd
  · rw [Roster.items_place hnot, List.take_length, List.drop_length]

theorem Sound.gained_created (hs : g.Sound n) (ho : n.op ≤ o.num) (hfirst : n.value ≤ first)
    {r : OpRequest V} (hparent : ∀ b, r.parent = some b → g.blocks.contains b = true) :
    g.Gained o first r (g.created o first r) where
  new_op := hs.bounded.fresh_op ho
  new_results := by
    intro v hv
    obtain ⟨i, -, rfl⟩ := mem_resultHandles.1 hv
    exact hs.bounded.fresh_value (Nat.le_trans hfirst (Nat.le_add_right first i))
  op := find?_ops_created g o first r
  result := by
    intro i ty hty
    rw [find?_values_created, find?_putResults_self hty]
    rfl
  value := by
    intro v hv
    rw [find?_values_created, find?_putResults_of_ne hv]
  listed := by
    intro b hb
    obtain ⟨d, hd⟩ := Table.contains_iff.1 (hparent b hb)
    have hnot : o ∉ d.ops.items := by
      rw [← opsIn_eq hd]
      exact hs.owned.not_mem_opsIn (parent?_eq_none (hs.bounded.fresh_op ho)) b
    obtain ⟨ops, hentry, hitems⟩ := find?_blocks_created hb hd hnot first
    exact ⟨d, ops, hd, hentry, hitems⟩
  other := find?_blocks_created_of_ne g o first
  region := find?_regions_created g o first r

end Graph

/-! ## Both ends -/

variable [OpVerifier V]

/-- What is reported of a request: a record for each demand that is not met, with the complaint of
the rule that it is named for. -/
structure OpRequest.Reported (r : OpRequest V) (g : Graph V) (o : Op) (first : Nat)
    (failures : List RuleFailure) : Prop where
  records : Records (r.demands g o first) failures
  complaint : ∀ f ∈ failures, ∃ rule ∈ (g.requestView o first r).rules,
    rule.name = f.rule ∧ rule.check (g.requestView o first r) = .ok (some f.message)
  /-- The results are always owned, unless an extra verifier has taken that name. -/
  results_owned : ∀ f ∈ failures, f.rule = "results-owned" →
    ∃ v ∈ r.verifiers, OpVerifier.name v = f.rule

theorem Graph.Sound.reported {g : Graph V} {n : NextHandles} (hs : g.Sound n) {o : Op}
    (ho : n.op ≤ o.num) {first : Nat} {r : OpRequest V} {failures : List RuleFailure}
    (hfailures : (g.requestView o first r).failures = .ok failures) :
    r.Reported g o first failures := by
  have hrecords := hs.records_of_failures ho hfailures
  refine ⟨hrecords, fun f hf => Rule.exists_check_of_mem_collect hfailures hf, ?_⟩
  intro f hf hname
  obtain ⟨d, hd, hrule, -⟩ := hrecords.exists_of_mem hf
  rw [OpRequest.demands, List.mem_append, List.mem_append, List.mem_map, List.mem_map] at hd
  rcases hd with (hbuiltin | ⟨t, -, rfl⟩) | ⟨v, hv, rfl⟩
  · simp only [List.mem_cons, List.not_mem_nil, or_false] at hbuiltin
    rcases hbuiltin with rfl | rfl | rfl | rfl <;> simp [← hrule] at hname
  · rw [← hrule] at hname
    cases t <;> simp [OpRequest.traitDemand] at hname
  · exact ⟨v, hv, hrule⟩

/-- When a creation is done and what comes of it. -/
structure CreationEnds (s : Store V) (r : OpRequest V) (outcome : Outcome (Store V) EditError Op) :
    Prop where
  faultless : outcome.Faultless
  done : (∃ o s', outcome = .done o s') ↔
    ∀ d ∈ r.demands s.graph ⟨s.next.op⟩ s.next.value, d.met
  of_done : ∀ {o s'}, outcome = .done o s' →
    o = ⟨s.next.op⟩ ∧ s'.next = s.next.past r.resultTypes.length ∧
      s.graph.Gained o s.next.value r s'.graph
  of_refused : ∀ {e s'}, outcome = .refused e s' →
    s' = ⟨s.graph, s.next.past r.resultTypes.length⟩ ∧ ∃ error, e = .invalid error ∧
      r.Reported s.graph ⟨s.next.op⟩ s.next.value error.failures

namespace CreationEnds

variable {s : Store V} {r : OpRequest V}

theorem ofDone {g' : Graph V}
    (hmet : ∀ d ∈ r.demands s.graph ⟨s.next.op⟩ s.next.value, d.met)
    (hgained : s.graph.Gained ⟨s.next.op⟩ s.next.value r g') :
    CreationEnds s r (.done ⟨s.next.op⟩ ⟨g', s.next.past r.resultTypes.length⟩) where
  faultless := trivial
  done := iff_of_true ⟨_, _, rfl⟩ hmet
  of_done := by
    rintro _ _ heq
    cases heq
    exact ⟨rfl, rfl, hgained⟩
  of_refused heq := by cases heq

theorem ofRefused {error : ValidationError}
    (hreported : r.Reported s.graph ⟨s.next.op⟩ s.next.value error.failures) :
    CreationEnds s r
      (.refused (.invalid error) ⟨s.graph, s.next.past r.resultTypes.length⟩) where
  faultless := trivial
  done := iff_of_false (by simp) fun hmet =>
    error.nonempty (hreported.records.eq_nil_iff.2 hmet)
  of_done heq := by cases heq
  of_refused := by
    rintro _ _ heq
    cases heq
    exact ⟨rfl, error, rfl, hreported⟩

end CreationEnds

/-- A request that there are handles for is met iff its demands are; otherwise each demand that is
not met is reported, and nothing changes but the counters. -/
theorem Reachable.creationEnds {s : Store V} (h : Reachable s) (r : OpRequest V)
    (hroom : s.next.RoomFor r.resultTypes.length)
    (hverifiers : ∀ v ∈ r.verifiers, ∃ outcome,
      OpVerifier.check v (s.graph.requestView ⟨s.next.op⟩ s.next.value r) = .ok outcome) :
    CreationEnds s r ((create r).run s) := by
  have hs := h.sound
  have hop := Nat.le_refl s.next.op
  refine (faultless_create hs hroom hverifiers).of_ends (ends_create hs ?done ?refused)
  case done =>
    intro _ hmet
    obtain ⟨-, -, -, hparents, -⟩ := OpRequest.forall_demands_iff.1 hmet
    refine .ofDone hmet ?_
    exact Graph.Sound.gained_created hs hop (Nat.le_refl s.next.value) fun b hb => (hparents b hb).1
  case refused =>
    intro _ error hfailures
    exact .ofRefused (Graph.Sound.reported hs hop hfailures)

/-- A sum of an argument, its own result, and the argument again. -/
def OpRequest.sampleSum : OpRequest DialectVerifier where
  name := "test.add"
  operands := [⟨1⟩, ⟨3⟩, ⟨1⟩]
  parent := some ⟨1⟩
  resultTypes := [default]
  verifiers := [.sameOperandTypes]

/-- A request that breaks a rule of each sort. -/
def OpRequest.sampleMisfit : OpRequest DialectVerifier where
  name := "test.add"
  operands := [⟨7⟩]
  traits := [.operands 2]
  verifiers := [.alwaysFails]

/-- The sum is made, and the misfit is told three times why it is not. -/
theorem Reachable.creationEnds_sample : Reachable Store.sample ∧
    (∃ s', (create OpRequest.sampleSum).run Store.sample = .done ⟨5⟩ s' ∧
      Store.sample.graph.Gained ⟨5⟩ 3 OpRequest.sampleSum s'.graph ∧
      s'.graph.uses? ⟨3⟩ = some [⟨⟨5⟩, 1⟩]) ∧
    ∃ error, (create OpRequest.sampleMisfit).run Store.sample =
        .refused (.invalid error) ⟨Store.sample.graph, Store.sample.next.past 0⟩ ∧
      error.failures.map (·.rule) = ["operands-exist", "n-operands", "always-fails"] ∧
      OpRequest.sampleMisfit.Reported Store.sample.graph ⟨5⟩ 3 error.failures := by
  have hop : Store.sample.next.op = 5 := by decide +kernel
  have hvalue : Store.sample.next.value = 3 := by decide +kernel
  refine ⟨reachable_sample, ?_, ?_⟩
  · have hroom : Store.sample.next.RoomFor OpRequest.sampleSum.resultTypes.length := by
      decide +kernel
    have hverifiers : ∀ v ∈ OpRequest.sampleSum.verifiers, ∃ outcome,
        OpVerifier.check v (Store.sample.graph.requestView ⟨Store.sample.next.op⟩
          Store.sample.next.value OpRequest.sampleSum) = .ok outcome := by
      intro v hv
      cases List.mem_singleton.1 hv
      rw [hop, hvalue]
      have hok : (OpVerifier.check DialectVerifier.sameOperandTypes
          (Store.sample.graph.requestView ⟨5⟩ 3 OpRequest.sampleSum)).isOk = true := by
        decide +kernel
      cases hcheck : OpVerifier.check DialectVerifier.sameOperandTypes
          (Store.sample.graph.requestView ⟨5⟩ 3 OpRequest.sampleSum) with
      | ok outcome => exact ⟨outcome, rfl⟩
      | error c =>
          rw [hcheck] at hok
          cases hok
    have hends := Reachable.creationEnds reachable_sample OpRequest.sampleSum hroom hverifiers
    have hrun : (create OpRequest.sampleSum).run Store.sample =
        .done ⟨5⟩ ⟨Store.sample.graph.created ⟨5⟩ 3 OpRequest.sampleSum,
          Store.sample.next.past 1⟩ := by
      decide +kernel
    obtain ⟨-, -, hgained⟩ := hends.of_done hrun
    rw [hvalue] at hgained
    exact ⟨_, hrun, hgained, by decide +kernel⟩
  · have hroom : Store.sample.next.RoomFor OpRequest.sampleMisfit.resultTypes.length := by
      decide +kernel
    have hverifiers : ∀ v ∈ OpRequest.sampleMisfit.verifiers, ∃ outcome,
        OpVerifier.check v (Store.sample.graph.requestView ⟨Store.sample.next.op⟩
          Store.sample.next.value OpRequest.sampleMisfit) = .ok outcome := by
      intro v hv
      cases List.mem_singleton.1 hv
      exact ⟨_, rfl⟩
    have hends := Reachable.creationEnds reachable_sample OpRequest.sampleMisfit hroom hverifiers
    have hrun : (create OpRequest.sampleMisfit).run Store.sample = .refused (.invalid ⟨[
        ⟨"operands-exist", "operand #0 of test.add refers to value %7 that does not exist"⟩,
        ⟨"n-operands", "test.add requires exactly 2 operands, but got 1"⟩,
        ⟨"always-fails", "test.add op5 always fails"⟩], List.cons_ne_nil _ _⟩)
        ⟨Store.sample.graph, Store.sample.next.past 0⟩ := by
      decide +kernel
    obtain ⟨-, error, heq, hreported⟩ := hends.of_refused hrun
    cases heq
    rw [hop, hvalue] at hreported
    exact ⟨_, hrun, rfl, hreported⟩

end RegionIR
