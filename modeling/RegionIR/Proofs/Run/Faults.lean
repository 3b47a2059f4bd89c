import RegionIR.Proofs.Run.Guarantees

/-!
# Runs that meet no fault

A command follows links that earlier commands have stored, and trusts them: it
looks up what they name, takes out and overwrites what stands at a stored
position, and places entities in lists that are expected not to hold them.  In
a reachable store none of this can fail.  All that is asked of the caller is
that the entities named by the command are in the graph, and that a module has
a region to hold its body.  The counters are not asked for more handles than
they have left.

A request for a new operation may name anything, since the rules look for it
first.  What it relies on is the code that its definition brings along.

## Main results

* `Command.Ready` — what a command relies on.
* `Graph.QueriesAnswered` — all queries about what is in the graph.
* `Reachable.ne_fault` — no ready command and no query meets a fault.
-/

namespace RegionIR

variable {V : Type} {s : Store V}

/-! ## What a command relies on -/

section Commands

variable [OpVerifier V]

/-- All that a command names is in the graph, there are handles for what it makes, a module has a
region, and no code of a definition meets a fault. -/
def Command.Ready (s : Store V) : Command V → Prop
  | .newBlock => s.next.Room .block 1
  | .newBlockWith types => s.next.Room .block 1 ∧ s.next.Room .value types.length
  | .newRegion => s.next.Room .region 1
  | .newModule => s.next.Room .region 1 ∧ s.next.RoomFor 0
  | .addArgument b _ => s.graph.blocks.contains b = true ∧ s.next.Room .value 1
  | .insertArgument b i _ =>
    s.graph.blocks.contains b = true ∧
      (i ≤ (s.graph.argsOf b).length → s.next.Room .value 1)
  | .removeArgumentAt b _ => s.graph.blocks.contains b = true
  | .removeArgument b arg =>
    s.graph.blocks.contains b = true ∧ s.graph.values.contains arg = true
  | .insertOp b _ o | .pushOpFront b o | .pushOpBack b o | .removeOp b o =>
    s.graph.blocks.contains b = true ∧ s.graph.ops.contains o = true
  | .spliceOp b o target _ =>
    s.graph.blocks.contains b = true ∧ s.graph.ops.contains o = true ∧
      s.graph.blocks.contains target = true
  | .newRegionWith blocks =>
    s.next.Room .region 1 ∧ ∀ b ∈ blocks, s.graph.blocks.contains b = true
  | .insertBlock r _ b | .pushBlockFront r b | .pushBlockBack r b | .removeBlock r b =>
    s.graph.regions.contains r = true ∧ s.graph.blocks.contains b = true
  | .clearRegion r => s.graph.regions.contains r = true
  | .create request =>
    s.next.RoomFor request.resultTypes.length ∧ ∀ v ∈ request.verifiers, ∃ outcome,
      OpVerifier.check v (s.graph.requestView ⟨s.next.op⟩ s.next.value request) = .ok outcome
  | .createOf definition operands attrs regions parent =>
    (∀ v ∈ operands, s.graph.values.contains v = true) →
      ∃ types, definition.resultTypes s.graph operands attrs = .ok types ∧
        s.next.RoomFor types.length ∧ ∀ v ∈ definition.verifiers, ∃ outcome,
          OpVerifier.check v (s.graph.requestView ⟨s.next.op⟩ s.next.value
            (definition.request operands attrs regions parent types)) = .ok outcome
  | .setOperand o _ v => s.graph.ops.contains o = true ∧ s.graph.values.contains v = true
  | .replaceAllUses old new =>
    s.graph.values.contains old = true ∧ s.graph.values.contains new = true
  | .eraseOp o => s.graph.ops.contains o = true
  | .insertSymbol table symbol =>
    s.graph.ops.contains table = true ∧ s.graph.ops.contains symbol = true
  | .removeSymbol table _ => s.graph.ops.contains table = true
  | .moduleBodyOrNew m => s.graph.regionsOf m ≠ [] ∧ Edit.RoomForBody s m
  | .appendToModule m o =>
    s.graph.regionsOf m ≠ [] ∧ Edit.RoomForBody s m ∧ s.graph.ops.contains o = true

open RegionIR.Edit RegionIR.Action

/-- In a sound store a ready command meets no fault. -/
theorem Command.faultless (hs : s.Sound) {c : Command V} (hc : c.Ready s) :
    (c.edit.run s).Faultless := by
  cases c with
  | newBlock => exact (faultless_bind_pure _ _).2 (faultless_newBlock.2 hc)
  | newBlockWith types => exact (faultless_bind_pure _ _).2 (faultless_newBlockWith hc.1 hc.2)
  | addArgument b ty => exact (faultless_bind_pure _ _).2 (faultless_addArgument hc.2 hc.1 ty)
  | insertArgument b i ty =>
      exact (faultless_bind_pure _ _).2 (faultless_insertArgument hs hc.1 hc.2 ty)
  | removeArgument b arg => exact faultless_removeArgument hs hc.1 hc.2
  | removeArgumentAt b i => exact (faultless_bind_pure _ _).2 (faultless_removeArgumentAt hs hc i)
  | insertOp b i o => exact faultless_insertOp hs hc.1 hc.2 i
  | pushOpFront b o => exact faultless_insertOp hs hc.1 hc.2 0
  | pushOpBack b o => exact faultless_pushOpBack hs hc.1 hc.2
  | removeOp b o => exact faultless_removeOp hc.1 hc.2
  | spliceOp b o target i => exact faultless_spliceOp hs hc.1 hc.2.1 hc.2.2 i
  | newRegion => exact (faultless_bind_pure _ _).2 (faultless_newRegion.2 hc)
  | newRegionWith blocks =>
      exact (faultless_bind_pure _ _).2 (faultless_newRegionWith hs hc.1 hc.2)
  | insertBlock r i b => exact faultless_insertBlock hs hc.1 hc.2 i
  | pushBlockFront r b => exact faultless_insertBlock hs hc.1 hc.2 0
  | pushBlockBack r b => exact faultless_pushBlockBack hs hc.1 hc.2
  | removeBlock r b => exact faultless_removeBlock hc.1 hc.2
  | clearRegion r => exact faultless_clearRegion hs hc
  | create request => exact (faultless_bind_pure _ _).2 (faultless_create hs hc.1 hc.2)
  | createOf definition operands attrs regions parent =>
      exact (faultless_bind_pure _ _).2 (faultless_createOf hs hc)
  | setOperand o i v => exact faultless_setOperand hs hc.1 hc.2 i
  | replaceAllUses old new => exact faultless_replaceAllUses hs hc.1 hc.2
  | eraseOp o => exact faultless_eraseOp hs hc
  | insertSymbol table symbol => exact faultless_insertSymbol hc.1 hc.2
  | removeSymbol table name => exact (faultless_bind_pure _ _).2 (faultless_removeSymbol hc name)
  | newModule => exact (faultless_bind_pure _ _).2 (faultless_newModule hs hc.1 hc.2)
  | moduleBodyOrNew m => exact (faultless_bind_pure _ _).2 (faultless_moduleBodyOrNew hs hc.1 hc.2)
  | appendToModule m o => exact faultless_appendToModule hs hc.1 hc.2.1 hc.2.2

end Commands

/-! ## Queries -/

namespace Graph

variable {g : Graph V}

/-- Every query about something that is in the graph has an answer. -/
structure QueriesAnswered (g : Graph V) : Prop where
  value : ∀ {v}, g.values.contains v = true → ∃ d, g.value v = .ok d
  op : ∀ {o}, g.ops.contains o = true → ∃ d, g.op o = .ok d
  block : ∀ {b}, g.blocks.contains b = true → ∃ d, g.block b = .ok d
  region : ∀ {r}, g.regions.contains r = true → ∃ d, g.region r = .ok d
  terminator : ∀ {b}, g.blocks.contains b = true → ∃ o, g.terminator? b = .ok o
  successors : ∀ {b}, g.blocks.contains b = true → ∃ l, g.successors b = .ok l
  parentOp : ∀ {b}, g.blocks.contains b = true → ∃ o, g.parentOp? b = .ok o
  lookUpSymbol : ∀ {o} name, g.ops.contains o = true → ∃ s, g.lookUpSymbol o name = .ok s
  moduleBody : ∀ {m}, g.ops.contains m = true → ∃ b, g.moduleBody? m = .ok b

theorem exists_demand {k : EntityKind} {β : Type} {t : Table (Handle k) β} {x : Handle k}
    (hlive : t.contains x = true) : ∃ d, t.demand x = .ok d := by
  obtain ⟨d, hd⟩ := Table.contains_iff.1 hlive
  exact ⟨d, Table.demand_eq_ok_iff.2 hd⟩

/-- A terminator is an operation of the graph, since the block lists it. -/
theorem Owned.exists_terminator? (h : g.Owned) {b : Block} (hb : g.blocks.contains b = true) :
    ∃ o, g.terminator? b = .ok o ∧ ∀ o', o = some o' → g.ops.contains o' = true := by
  obtain ⟨d, hd⟩ := Table.contains_iff.1 hb
  unfold terminator?
  rw [show g.block b = .ok d from Table.demand_eq_ok_iff.2 hd, ok_bind]
  cases hback : d.ops.back? with
  | none => exact ⟨none, rfl, fun _ heq => by cases heq⟩
  | some last =>
      have hlisted : last ∈ g.opsIn b := opsIn_eq hd ▸ List.mem_of_getLast? hback
      have hlive := h.op_of_mem_opsIn hlisted
      obtain ⟨e, he⟩ := exists_demand hlive
      dsimp only
      rw [show g.op last = .ok e from he, ok_bind]
      refine ⟨_, rfl, fun o' heq => ?_⟩
      split at heq
      · cases heq
        exact hlive
      · cases heq

theorem QueriesAnswered.of_owned (h : g.Owned) : g.QueriesAnswered where
  value := exists_demand
  op := exists_demand
  block := exists_demand
  region := exists_demand
  terminator hb := (h.exists_terminator? hb).imp fun _ ho => ho.1
  successors := by
    intro b hb
    obtain ⟨o, ho, hlive⟩ := h.exists_terminator? hb
    unfold Graph.successors
    rw [ho, ok_bind]
    cases o with
    | none => exact ⟨[], rfl⟩
    | some o =>
        obtain ⟨d, hd⟩ := exists_demand (hlive o rfl)
        dsimp only
        rw [show g.op o = .ok d from hd, ok_bind]
        exact ⟨_, rfl⟩
  parentOp := by
    intro b hb
    obtain ⟨d, hd⟩ := Table.contains_iff.1 hb
    unfold parentOp?
    rw [show g.block b = .ok d from Table.demand_eq_ok_iff.2 hd, ok_bind]
    cases howner : d.owner with
    | none => exact ⟨none, rfl⟩
    | some r =>
        obtain ⟨e, he⟩ := exists_demand (h.region_of_owner? ((owner?_eq hd).trans howner))
        dsimp only
        rw [show g.region r = .ok e from he, ok_bind]
        exact ⟨_, rfl⟩
  lookUpSymbol := by
    intro o name ho
    obtain ⟨d, hd⟩ := exists_demand ho
    unfold Graph.lookUpSymbol
    rw [show g.op o = .ok d from hd, ok_bind]
    exact ⟨_, rfl⟩
  moduleBody hm := exists_moduleBody? h hm

end Graph

/-! ## Reachable stores -/

/-- No command that names what is in the graph meets a fault, and no query does. -/
theorem Reachable.ne_fault [OpVerifier V] (h : Reachable s) :
    (∀ c : Command V, c.Ready s → ∀ cause, c.edit.run s ≠ .fault cause) ∧
      s.graph.QueriesAnswered :=
  ⟨fun _ hc => (Command.faultless h.sound hc).never_fault, .of_owned h.sound.owned⟩

/-- A move to a position behind the end is refused, not a fault. -/
theorem Reachable.ne_fault_sample : Reachable Store.sample ∧
    (Command.spliceOp ⟨1⟩ ⟨3⟩ ⟨1⟩ 9).Ready Store.sample ∧
    (∀ cause, (Command.spliceOp ⟨1⟩ ⟨3⟩ ⟨1⟩ 9).edit.run Store.sample ≠ .fault cause) ∧
    ∃ l, Store.sample.graph.successors ⟨1⟩ = .ok l := by
  obtain ⟨hcommands, hqueries⟩ := Reachable.ne_fault reachable_sample
  have hb : Store.sample.graph.blocks.contains ⟨1⟩ = true := by decide +kernel
  have ho : Store.sample.graph.ops.contains ⟨3⟩ = true := by decide +kernel
  have hready : (Command.spliceOp ⟨1⟩ ⟨3⟩ ⟨1⟩ 9).Ready Store.sample := ⟨hb, ho, hb⟩
  exact ⟨reachable_sample, hready, hcommands _ hready, hqueries.successors hb⟩

end RegionIR
