import RegionIR.Dialect
import RegionIR.Proofs.Invariants.Intact
import RegionIR.Proofs.Run.Reachable

/-!
# What holds of every reachable graph

The guarantees are stated on the entries of a graph, without the views and
invariants that their proofs go through, so that they can be read beside the
data types alone.  All of them follow from soundness.

## Main results

* `Reachable.edgesAgree` — operand slots and use lists.
* `Reachable.containersAgree` — parents, owners and the lists that they are in.
* `Reachable.walks_end` — nesting has no cycle, and every walk along it ends.
* `Reachable.verify_eq_ok` — what verification can still report.
* `Reachable.producersAgree` — results and arguments, and the values that name
  their producers.
* `Reachable.symbolsAgree` — symbol tables and the symbols they name.
-/

namespace RegionIR

variable {V : Type}

/-! ## Statements about entries -/

namespace Graph

/-- Operand slots and use lists tell of the same edges. -/
structure EdgesAgree (g : Graph V) : Prop where
  live : ∀ {o d v}, g.ops.find? o = some d → v ∈ d.operands → g.values.contains v = true
  mem_uses : ∀ {v e o i}, g.values.find? v = some e → (⟨o, i⟩ ∈ e.uses ↔
    ∃ d, g.ops.find? o = some d ∧ ∃ hi : i < d.operands.length, d.operands[i] = v)
  nodup : ∀ {v e}, g.values.find? v = some e → e.uses.Nodup

/-- An entity names as its container just what lists it, and is listed once. -/
structure ContainersAgree (g : Graph V) : Prop where
  op : ∀ {o d b}, g.ops.find? o = some d →
    (d.parent = some b ↔ ∃ e, g.blocks.find? b = some e ∧ o ∈ e.ops)
  block : ∀ {b d r}, g.blocks.find? b = some d →
    (d.owner = some r ↔ ∃ e, g.regions.find? r = some e ∧ b ∈ e.blocks)
  region : ∀ {r d o}, g.regions.find? r = some d →
    (d.parent = some o ↔ ∃ e, g.ops.find? o = some e ∧ r ∈ e.regions)
  live_op : ∀ {b e o}, g.blocks.find? b = some e → o ∈ e.ops → g.ops.contains o = true
  live_block : ∀ {r e b}, g.regions.find? r = some e → b ∈ e.blocks →
    g.blocks.contains b = true
  live_region : ∀ {o e r}, g.ops.find? o = some e → r ∈ e.regions →
    g.regions.contains r = true
  nodup_ops : ∀ {b e}, g.blocks.find? b = some e → e.ops.items.Nodup
  nodup_blocks : ∀ {r e}, g.regions.find? r = some e → e.blocks.items.Nodup
  nodup_regions : ∀ {o e}, g.ops.find? o = some e → e.regions.Nodup
  one_block : ∀ {b b' e e' o}, g.blocks.find? b = some e → g.blocks.find? b' = some e' →
    o ∈ e.ops → o ∈ e'.ops → b = b'
  one_region : ∀ {r r' e e' b}, g.regions.find? r = some e → g.regions.find? r' = some e' →
    b ∈ e.blocks → b ∈ e'.blocks → r = r'
  one_op : ∀ {o o' e e' r}, g.ops.find? o = some e → g.ops.find? o' = some e' →
    r ∈ e.regions → r ∈ e'.regions → o = o'

/-- A value states its producer and position just where the producer lists it.  An argument
that no block lists states neither. -/
structure ProducersAgree (g : Graph V) : Prop where
  result : ∀ {o d i}, g.ops.find? o = some d → ∀ hi : i < d.results.length,
    ∃ e, g.values.find? d.results[i] = some e ∧ e.origin = .result o i
  of_result : ∀ {v e o i}, g.values.find? v = some e → e.origin = .result o i →
    ∃ d, g.ops.find? o = some d ∧ ∃ hi : i < d.results.length, d.results[i] = v
  argument : ∀ {b d i}, g.blocks.find? b = some d → ∀ hi : i < d.args.length,
    ∃ e, g.values.find? d.args[i] = some e ∧ e.origin = .argument (some b) (some i)
  of_argument : ∀ {v e b i}, g.values.find? v = some e →
    e.origin = .argument (some b) (some i) →
      ∃ d, g.blocks.find? b = some d ∧ ∃ hi : i < d.args.length, d.args[i] = v
  detached : ∀ {v e b? i?}, g.values.find? v = some e → e.origin = .argument b? i? →
    (∀ b d, g.blocks.find? b = some d → v ∉ d.args) → b? = none ∧ i? = none

/-- A table lists symbols of the graph, each under its name and so only once.  Whoever has the
trait for a table has one, and nobody else. -/
structure SymbolsAgree (g : Graph V) : Prop where
  entry : ∀ {o d t name s}, g.ops.find? o = some d → d.symbols = some t → t.find? name = some s →
    ∃ e, g.ops.find? s = some e ∧ .symbol ∈ e.traits ∧ e.symbolName? = some name
  one_name : ∀ {o d t name name' s}, g.ops.find? o = some d → d.symbols = some t →
    t.find? name = some s → t.find? name' = some s → name = name'
  table : ∀ {o d}, g.ops.find? o = some d → (d.symbols.isSome = true ↔ .symbolTable ∈ d.traits)

variable {g : Graph V} {n : NextHandles}

theorem EdgesAgree.of_usesMatch (h : g.UsesMatch) : g.EdgesAgree where
  live hd hv := h.contains_operand hd hv
  mem_uses := by
    intro v e o i he
    rw [h.mem (uses?_eq he)]
    constructor
    · intro hslot
      obtain ⟨d, hd, hi⟩ := Option.bind_eq_some_iff.1 hslot
      exact ⟨d, hd, List.getElem?_eq_some_iff.1 hi⟩
    · rintro ⟨d, hd, hi⟩
      exact Option.bind_eq_some_iff.2 ⟨d, hd, List.getElem?_eq_some_iff.2 hi⟩
  nodup he := h.nodup (uses?_eq he)

/-- An operation is in the list of a block of the graph. -/
theorem mem_opsIn_iff {b : Block} {o : Op} :
    o ∈ g.opsIn b ↔ ∃ e, g.blocks.find? b = some e ∧ o ∈ e.ops := by
  cases he : g.blocks.find? b with
  | none => simp [opsIn, he]
  | some e => simp [opsIn_eq he, Roster.mem_def]

/-- A block is in the list of a region of the graph. -/
theorem mem_blocksIn_iff {r : Region} {b : Block} :
    b ∈ g.blocksIn r ↔ ∃ e, g.regions.find? r = some e ∧ b ∈ e.blocks := by
  cases he : g.regions.find? r with
  | none => simp [blocksIn, he]
  | some e => simp [blocksIn_eq he, Roster.mem_def]

/-- A region is in the list of an operation of the graph. -/
theorem mem_regionsOf_iff {o : Op} {r : Region} :
    r ∈ g.regionsOf o ↔ ∃ e, g.ops.find? o = some e ∧ r ∈ e.regions := by
  cases he : g.ops.find? o with
  | none => simp [regionsOf, he]
  | some e => simp [regionsOf_eq he]

/-- A value is in the list of an operation of the graph. -/
theorem mem_resultsOf_iff {o : Op} {v : Value} :
    v ∈ g.resultsOf o ↔ ∃ e, g.ops.find? o = some e ∧ v ∈ e.results := by
  cases he : g.ops.find? o with
  | none => simp [resultsOf, he]
  | some e => simp [resultsOf_eq he]

/-- A value is in the list of a block of the graph. -/
theorem mem_argsOf_iff {b : Block} {v : Value} :
    v ∈ g.argsOf b ↔ ∃ e, g.blocks.find? b = some e ∧ v ∈ e.args := by
  cases he : g.blocks.find? b with
  | none => simp [argsOf, he]
  | some e => simp [argsOf_eq he]

theorem ContainersAgree.of_owned (h : g.Owned) : g.ContainersAgree where
  op hd := by rw [← mem_opsIn_iff, h.op, parent?_eq hd]
  block hd := by rw [← mem_blocksIn_iff, h.block, owner?_eq hd]
  region hd := by rw [← mem_regionsOf_iff, h.region, holder?_eq hd]
  live_op he ho := h.op_of_mem_opsIn (mem_opsIn_iff.2 ⟨_, he, ho⟩)
  live_block he hb := h.block_of_mem_blocksIn (mem_blocksIn_iff.2 ⟨_, he, hb⟩)
  live_region he hr := h.region_of_mem_regionsOf (mem_regionsOf_iff.2 ⟨_, he, hr⟩)
  nodup_ops {_ e} _ := e.ops.nodup
  nodup_blocks {_ e} _ := e.blocks.nodup
  nodup_regions he := regionsOf_eq he ▸ h.nodup _
  one_block := by
    intro b b' e e' o he he' ho ho'
    have hparent := h.op.1 (mem_opsIn_iff.2 ⟨e, he, ho⟩)
    have hparent' := h.op.1 (mem_opsIn_iff.2 ⟨e', he', ho'⟩)
    exact Option.some.inj (hparent.symm.trans hparent')
  one_region := by
    intro r r' e e' b he he' hb hb'
    have howner := h.block.1 (mem_blocksIn_iff.2 ⟨e, he, hb⟩)
    have howner' := h.block.1 (mem_blocksIn_iff.2 ⟨e', he', hb'⟩)
    exact Option.some.inj (howner.symm.trans howner')
  one_op := by
    intro o o' e e' r he he' hr hr'
    have hholder := h.region.1 (mem_regionsOf_iff.2 ⟨e, he, hr⟩)
    have hholder' := h.region.1 (mem_regionsOf_iff.2 ⟨e', he', hr'⟩)
    exact Option.some.inj (hholder.symm.trans hholder')

theorem ProducersAgree.of_produced (h : g.Produced) : g.ProducersAgree where
  result := by
    intro o d i hd hi
    have hlisted : (g.resultsOf o)[i]? = some d.results[i] := by
      rw [resultsOf_eq hd, List.getElem?_eq_getElem hi]
    exact Option.map_eq_some_iff.1 (h.result.1 hlisted)
  of_result := by
    intro v e o i he horigin
    have hlisted := h.result.2 ((origin?_eq he).trans (congrArg some horigin))
    obtain ⟨d, hd, -⟩ := mem_resultsOf_iff.1 (List.mem_of_getElem? hlisted)
    rw [resultsOf_eq hd] at hlisted
    exact ⟨d, hd, List.getElem?_eq_some_iff.1 hlisted⟩
  argument := by
    intro b d i hd hi
    have hlisted : (g.argsOf b)[i]? = some d.args[i] := by
      rw [argsOf_eq hd, List.getElem?_eq_getElem hi]
    exact Option.map_eq_some_iff.1 (h.argument.1 hlisted)
  of_argument := by
    intro v e b i he horigin
    have hlisted := h.argument.2 ((origin?_eq he).trans (congrArg some horigin))
    obtain ⟨d, hd, -⟩ := mem_argsOf_iff.1 (List.mem_of_getElem? hlisted)
    rw [argsOf_eq hd] at hlisted
    exact ⟨d, hd, List.getElem?_eq_some_iff.1 hlisted⟩
  detached := by
    intro v e b? i? he horigin hout
    by_cases hplaced : Origin.argument b? i? = .argument none none
    · cases hplaced
      exact ⟨rfl, rfl⟩
    · -- An origin that states something points to a list that the value is in.
      have hlisted := (h.listed hplaced).2 ((origin?_eq he).trans (congrArg some horigin))
      cases b? with
      | none => cases hlisted
      | some b =>
          cases i? with
          | none => cases hlisted
          | some i =>
              obtain ⟨d, hd, hv⟩ := mem_argsOf_iff.1 (List.mem_of_getElem? hlisted)
              exact absurd hv (hout b d hd)

/-- The name under which a symbol may be entered is that of its attribute. -/
theorem symbolName?_eq_some_iff {s : Op} {name : String} : g.symbolName? s = some name ↔
    ∃ e, g.ops.find? s = some e ∧ .symbol ∈ e.traits ∧ e.symbolName? = some name := by
  unfold symbolName?
  rw [Option.bind_eq_some_iff]
  refine exists_congr fun e => and_congr_right fun _ => ?_
  by_cases htrait : .symbol ∈ e.traits <;> simp [OpData.hasTrait, htrait]

theorem SymbolsAgree.of_sound (h : g.Sound n) : g.SymbolsAgree where
  entry hd ht hentry :=
    symbolName?_eq_some_iff.1 (h.symbols.entry ((table?_eq hd).trans ht) hentry)
  one_name := by
    intro o d t name name' s hd ht hentry hentry'
    have htable := (table?_eq hd).trans ht
    have hname := h.symbols.entry htable hentry
    have hname' := h.symbols.entry htable hentry'
    exact Option.some.inj (hname.symm.trans hname')
  table hd := (h.lawful.op hd).table

end Graph

/-! ## A small run -/

/-- A sum and a terminator in the block of a function.  The terminator is put
in front of the sum, and two of the commands are refused. -/
def Command.sample : List (Command DialectVerifier) := [
  .newBlock,
  .addArgument ⟨1⟩ default,
  .newRegionWith [⟨1⟩],
  .create { name := "test.func", regions := [⟨1⟩] },
  .create
    { name := "test.add"
      operands := [⟨1⟩, ⟨1⟩]
      parent := some ⟨1⟩
      resultTypes := [default]
      verifiers := [.sameOperandTypes] },
  .create
    { name := "test.yield"
      operands := [⟨2⟩]
      parent := some ⟨1⟩
      traits := [.terminator] },
  .create { name := "test.add", operands := [⟨7⟩] },
  .spliceOp ⟨1⟩ ⟨3⟩ ⟨1⟩ 0,
  .insertOp ⟨1⟩ 0 ⟨1⟩,
  .setOperand ⟨2⟩ 1 ⟨2⟩]

/-- Where the small run leads. -/
def Store.sample : Store DialectVerifier := Command.play Command.sample {}

theorem reachable_sample : Reachable Store.sample :=
  (Reachable.start {} (by decide)).play Command.sample

/-! ## The guarantees -/

namespace Reachable

variable [OpVerifier V] {s : Store V}

/-- Every operand is in the graph, and use lists hold the slots that name a value, each once. -/
theorem edgesAgree (h : Reachable s) : s.graph.EdgesAgree :=
  .of_usesMatch h.sound.uses

theorem edgesAgree_sample : Reachable Store.sample ∧ Store.sample.graph.EdgesAgree ∧
    ∀ e, Store.sample.graph.values.find? ⟨2⟩ = some e → (⟨⟨2⟩, 1⟩ : Use) ∈ e.uses := by
  have hagree := edgesAgree reachable_sample
  have hslot : Store.sample.graph.slot? ⟨⟨2⟩, 1⟩ = some ⟨2⟩ := by decide +kernel
  obtain ⟨d, hd, hi⟩ := Option.bind_eq_some_iff.1 hslot
  refine ⟨reachable_sample, hagree, fun e he => ?_⟩
  exact (hagree.mem_uses he).2 ⟨d, hd, List.getElem?_eq_some_iff.1 hi⟩

/-- Ownership links agree with containment, and every entity is in at most one container. -/
theorem containersAgree (h : Reachable s) : s.graph.ContainersAgree :=
  .of_owned h.sound.owned

theorem containersAgree_sample : Reachable Store.sample ∧ Store.sample.graph.ContainersAgree ∧
    ∀ d, Store.sample.graph.ops.find? ⟨3⟩ = some d → d.parent = some ⟨1⟩ := by
  have hagree := containersAgree reachable_sample
  have hlisted : (⟨3⟩ : Op) ∈ Store.sample.graph.opsIn ⟨1⟩ := by decide +kernel
  refine ⟨reachable_sample, hagree, fun d hd => ?_⟩
  exact (hagree.op hd).2 (Graph.mem_opsIn_iff.1 hlisted)

/-- No entity is nested in itself.  The walks up end with the right answer, the walk down
collects what is nested, and a fault of verification is that of an extra verifier. -/
theorem walks_end (h : Reachable s) : s.graph.Acyclic ∧
    (∀ b regions, ∃ inside, s.graph.blockInside b regions = .ok inside ∧
      (inside = true ↔ ∃ r ∈ regions, s.graph.Encloses (.region r) (.block b))) ∧
    (∀ r b, s.graph.regions.contains r = true →
      ∃ inside, s.graph.regionInside r b = .ok inside ∧
        (inside = true ↔ s.graph.Encloses (.block b) (.region r))) ∧
    (∀ o, s.graph.ops.contains o = true →
      ∃ t, s.graph.subtree o = .ok t ∧ ∀ x, t.Contains x ↔ s.graph.Within x (.op o)) ∧
    ∀ o c, s.graph.ops.contains o = true → s.graph.verify o = .error c →
      s.graph.VerifierFault o c := by
  have hs := h.sound
  refine ⟨hs.acyclic, ?_, ?_, ?_, ?_⟩
  · intro b regions
    exact Graph.blockInside_eq_ok hs.owned hs.acyclic b regions
  · intro r b hr
    exact Graph.regionInside_eq_ok hs.owned hs.acyclic hr b
  · intro o ho
    exact Graph.subtree_eq_ok hs.owned hs.acyclic ho
  · intro o c ho hverify
    have hsettles := hs.settles_verify ho
    rw [hverify] at hsettles
    exact hsettles

theorem walks_end_sample : Reachable Store.sample ∧ Store.sample.graph.Acyclic ∧
    ∃ t, Store.sample.graph.subtree ⟨1⟩ = .ok t ∧ (⟨3⟩ : Op) ∈ t.ops := by
  obtain ⟨hacyclic, -, -, hdown, -⟩ := walks_end reachable_sample
  obtain ⟨t, ht, hcollects⟩ := hdown ⟨1⟩ (by decide +kernel)
  have hregion : Store.sample.graph.Holds (.op ⟨1⟩) (.region ⟨1⟩) := .region (by decide +kernel)
  have hblock : Store.sample.graph.Holds (.region ⟨1⟩) (.block ⟨1⟩) := .block (by decide +kernel)
  have hop : Store.sample.graph.Holds (.block ⟨1⟩) (.op ⟨3⟩) := .op (by decide +kernel)
  have hin : Store.sample.graph.Within (.op ⟨3⟩) (.op ⟨1⟩) :=
    ((Relation.ReflTransGen.single hregion).tail hblock).tail hop
  exact ⟨reachable_sample, hacyclic, t, ht, (hcollects (.op ⟨3⟩)).2 hin⟩

/-- Verification goes through if the extra verifiers do.  Every operation passes all other checks,
and what is reported is a terminator that is not last or stems from an extra verifier. -/
theorem verify_eq_ok (h : Reachable s) {o : Op} (ho : s.graph.ops.contains o = true)
    (hverifiers : ∀ o' d v, s.graph.Within (.op o') (.op o) → s.graph.ops.find? o' = some d →
      v ∈ d.verifiers → ∃ outcome, OpVerifier.check v ⟨s.graph, o', d⟩ = .ok outcome) :
    ∃ outcome, s.graph.verify o = .ok outcome ∧
      (∀ e, outcome = some e → ∀ f ∈ e.failures, s.graph.Tolerated o f) ∧
      ∀ o' d, s.graph.ops.find? o' = some d → s.graph.Intact o' d := by
  have hs := h.sound
  have hsettles := hs.settles_verify ho
  cases hverify : s.graph.verify o with
  | error c =>
      rw [hverify] at hsettles
      obtain ⟨o', d, v, hin, hd, hv, hfault⟩ := hsettles
      obtain ⟨outcome, hok⟩ := hverifiers o' d v hin hd hv
      rw [hok] at hfault
      cases hfault
  | ok outcome =>
      rw [hverify] at hsettles
      exact ⟨outcome, rfl, hsettles, fun o' d hd => hs.intact hd⟩

theorem verify_eq_ok_sample : Reachable Store.sample ∧
    (Store.sample.graph.verify ⟨1⟩).toOption.map Option.isSome = some true ∧
    ∃ outcome, Store.sample.graph.verify ⟨1⟩ = .ok outcome ∧
      ∀ e, outcome = some e → ∀ f ∈ e.failures, Store.sample.graph.Tolerated ⟨1⟩ f := by
  have hpass : ∀ entry ∈ Store.sample.graph.ops.entries, ∀ v ∈ entry.2.verifiers,
      (OpVerifier.check v ⟨Store.sample.graph, entry.1, entry.2⟩).isOk = true := by decide +kernel
  have hgo : ∀ o' d v, Store.sample.graph.Within (.op o') (.op ⟨1⟩) →
      Store.sample.graph.ops.find? o' = some d → v ∈ d.verifiers →
        ∃ outcome, OpVerifier.check v ⟨Store.sample.graph, o', d⟩ = .ok outcome := by
    intro o' d v _ hd hv
    have hok := hpass (o', d) ((Store.sample.graph.ops.mem_entries_iff o' d).2 hd) v hv
    cases hcheck : OpVerifier.check v ⟨Store.sample.graph, o', d⟩ with
    | ok outcome => exact ⟨outcome, rfl⟩
    | error c =>
        rw [hcheck] at hok
        cases hok
  obtain ⟨outcome, hverify, htolerated, -⟩ := verify_eq_ok reachable_sample (by decide +kernel) hgo
  exact ⟨reachable_sample, by decide +kernel, outcome, hverify, htolerated⟩

/-- Results and arguments state where they are listed, and nothing else states a place. -/
theorem producersAgree (h : Reachable s) : s.graph.ProducersAgree :=
  .of_produced h.sound.produced

theorem producersAgree_sample : Reachable Store.sample ∧ Store.sample.graph.ProducersAgree ∧
    ∀ d, Store.sample.graph.blocks.find? ⟨1⟩ = some d → (⟨1⟩ : Value) ∈ d.args := by
  have hagree := producersAgree reachable_sample
  have horigin : Store.sample.graph.origin? ⟨1⟩ = some (.argument (some ⟨1⟩) (some 0)) := by
    decide +kernel
  obtain ⟨e, he, horigin⟩ := Option.map_eq_some_iff.1 horigin
  refine ⟨reachable_sample, hagree, fun d hd => ?_⟩
  obtain ⟨d', hd', hi, hv⟩ := hagree.of_argument he horigin
  cases hd.symm.trans hd'
  exact hv ▸ List.getElem_mem hi

/-- No symbol table is stale: an entry names a symbol of the graph by its name. -/
theorem symbolsAgree (h : Reachable s) : s.graph.SymbolsAgree :=
  .of_sound h.sound

end Reachable

/-- A module with a function in it, and a second function that is refused for its name. -/
def Store.named : Store DialectVerifier :=
  let attrs : AttributeMap := .ofList [(OpTrait.symbolAttribute, ⟨default, default, .str "main"⟩)]
  Command.play [
    .newModule,
    .create { name := "test.func", attrs := attrs, traits := [.symbol] },
    .create { name := "test.func", attrs := attrs, traits := [.symbol] },
    .appendToModule ⟨1⟩ ⟨2⟩,
    .appendToModule ⟨1⟩ ⟨3⟩] {}

/-- The first function is entered in the table of the module, and so it has the name there. -/
theorem Reachable.symbolsAgree_named : Reachable Store.named ∧ Store.named.graph.SymbolsAgree ∧
    (Store.named.graph.table? ⟨1⟩).bind (·.find? "main") = some ⟨2⟩ ∧
    ∃ e, Store.named.graph.ops.find? ⟨2⟩ = some e ∧ e.symbolName? = some "main" := by
  have hreach : Reachable Store.named := (Reachable.start {} (by decide)).play _
  have hagree := Reachable.symbolsAgree hreach
  have hentry : (Store.named.graph.table? ⟨1⟩).bind (·.find? "main") = some ⟨2⟩ := by
    decide +kernel
  obtain ⟨t, ht, hname⟩ := Option.bind_eq_some_iff.1 hentry
  obtain ⟨d, hd, hsymbols⟩ := Option.bind_eq_some_iff.1 ht
  obtain ⟨e, he, -, hnamed⟩ := hagree.entry hd hsymbols hname
  exact ⟨hreach, hagree, hentry, e, he, hnamed⟩

end RegionIR
