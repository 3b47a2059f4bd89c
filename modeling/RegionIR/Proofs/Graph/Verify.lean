import RegionIR.Graph.Verify
import RegionIR.Proofs.Graph.Rules

/-!
# What verification can report

The checks that verification makes fall into two groups.  Most of them look
at links, rules and traits, which edits are bound to keep; where none of these
complains about an operation, it is intact.  Two of them look at what edits
leave to the caller: whether a terminator stands last in its block, and
whatever extra verifiers ask for.

In a graph of intact operations only the second group is left.  The walk has
four levels, and each level reports what the levels below it report, so one
lemma for each of them carries the kind of the failures upwards.

## Main results

* `Graph.Intact` — an operation that the first group does not complain about.
* `Graph.Tolerated` — the failures of the second group.
* `Graph.reports_failures` — the walk ends and reports nothing else.
-/

namespace RegionIR

open Relation

namespace Graph

variable {V : Type}

/-! ## Intact operations -/

/-- A block of a region and its arguments have their links, and so do its operations. -/
structure BlockIntact (g : Graph V) (r : Region) (b : Block) (d : BlockData) : Prop where
  owner : d.owner = some r
  args : ∀ arg ∈ d.args.zipIdx, g.brokenArgument b arg = .ok []
  ops : ∀ o ∈ d.ops.items, ∃ e, g.ops.find? o = some e ∧ e.parent = some b

/-- A region of an operation has its link, and so have its blocks. -/
structure RegionIntact (g : Graph V) (o : Op) (r : Region) (d : RegionData) : Prop where
  parent : d.parent = some o
  blocks : ∀ b ∈ d.blocks.items, ∃ e, g.blocks.find? b = some e ∧ g.BlockIntact r b e

/-- An operation passes every check apart from those of extra verifiers. -/
structure Intact (g : Graph V) (o : Op) (d : OpData V) : Prop where
  rules : ∀ rule ∈ OpView.builtinRules ++ d.traits.map OpView.traitRule,
    rule.check ⟨g, o, d⟩ = .ok none
  parent : g.unlistedInParent o d = []
  operands : ∀ slot ∈ d.operands.zipIdx, g.unregisteredOperand o d slot = []
  results : ∀ v ∈ d.results, g.staleUses v = .ok []
  regions : ∀ r ∈ d.regions, ∃ e, g.regions.find? r = some e ∧ g.RegionIntact o r e
  symbols : ∀ t, d.symbols = some t → ∀ entry ∈ t.entries, g.brokenSymbol entry = []

/-! ## What is left to report -/

variable [OpVerifier V]

/-- A failure that edits do not prevent, about something in an operation. -/
inductive Tolerated (g : Graph V) (root : Op) : RuleFailure → Prop where
  | terminatorLast {b : Block} {o : Op} {d : OpData V} (hin : g.Within (.block b) (.op root))
      (hlisted : o ∈ g.opsIn b) (hd : g.ops.find? o = some d) (hterminator : d.isTerminator = true)
      (hlast : (g.opsIn b).getLast? ≠ some o) :
      Tolerated g root ⟨"terminator-last",
        s!"terminator {d.name} must be the last operation of block {b}"⟩
  | verifier {o : Op} {d : OpData V} {v : V} {message : String}
      (hin : g.Within (.op o) (.op root)) (hd : g.ops.find? o = some d) (hv : v ∈ d.verifiers)
      (hcheck : OpVerifier.check v ⟨g, o, d⟩ = .ok (some message)) :
      Tolerated g root ⟨OpVerifier.name v, message⟩

/-- A fault that an extra verifier of something in an operation has met. -/
def VerifierFault (g : Graph V) (root : Op) (c : Fault) : Prop :=
  ∃ o d v, g.Within (.op o) (.op root) ∧ g.ops.find? o = some d ∧ v ∈ d.verifiers ∧
    OpVerifier.check v ⟨g, o, d⟩ = .error c

/-- A part of the walk reports only what is tolerated. -/
def Reports (g : Graph V) (root : Op) (r : Except Fault (List RuleFailure)) : Prop :=
  Settles r (fun failures => ∀ f ∈ failures, g.Tolerated root f) (g.VerifierFault root)

variable {g : Graph V} {root : Op}

theorem reports_nil : g.Reports root (.ok []) := by
  intro f hf
  cases hf

/-- What follows a part of the walk knows that all of its failures are tolerated. -/
theorem Reports.bind {r : Except Fault (List RuleFailure)}
    {k : List RuleFailure → Except Fault (List RuleFailure)} (h : g.Reports root r)
    (hk : ∀ failures, (∀ f ∈ failures, g.Tolerated root f) → g.Reports root (k failures)) :
    g.Reports root (r >>= k) := by
  rw [Reports, settles_bind]
  exact Settles.mono h hk

/-- The same for a part that goes through a list. -/
theorem reports_mapM_bind {α : Type} {l : List α} {visit : α → Except Fault (List RuleFailure)}
    {k : List (List RuleFailure) → Except Fault (List RuleFailure)}
    (h : ∀ x ∈ l, g.Reports root (visit x))
    (hk : ∀ lists, (∀ f ∈ lists.flatten, g.Tolerated root f) → g.Reports root (k lists)) :
    g.Reports root (l.mapM visit >>= k) := by
  rw [Reports, settles_bind]
  exact (settles_mapM_flatten h).mono hk

theorem mem_report {rule message : String} {broken : Bool} {f : RuleFailure} :
    f ∈ report rule broken message ↔ broken = true ∧ f = ⟨rule, message⟩ := by
  cases broken <;> simp [report]

theorem report_false (rule message : String) : report rule false message = [] := rfl

/-! ## The levels of the walk -/

section Levels

variable {visit : Op → Except Fault (List RuleFailure)} {o : Op} {b : Block} {r : Region}

theorem reports_rules {d : OpData V} (hd : g.ops.find? o = some d) (h : g.Intact o d)
    (hin : g.Within (.op o) (.op root)) : g.Reports root (OpView.mk g o d).failures := by
  refine Rule.settles_collect fun rule hrule => ?_
  rcases List.mem_append.1 hrule with hown | hextra
  · rw [h.rules rule hown]
    intro message heq
    cases heq
  · obtain ⟨v, hv, rfl⟩ := List.mem_map.1 hextra
    have hcheck : ∀ result, OpVerifier.check v ⟨g, o, d⟩ = result →
        Settles result (fun outcome => ∀ message, outcome = some message →
          g.Tolerated root ⟨OpVerifier.name v, message⟩) (g.VerifierFault root) := by
      intro result hresult
      cases result with
      | error c => exact ⟨o, d, v, hin, hd, hv, hresult⟩
      | ok outcome =>
          intro message heq
          exact .verifier hin hd hv (hresult.trans (congrArg Except.ok heq))
    exact hcheck _ rfl

theorem reports_listedFailures {d : OpData V} (hd : g.ops.find? o = some d)
    (hparent : d.parent = some b) (hin : g.Within (.block b) (.op root))
    (hlisted : o ∈ g.opsIn b) (hvisit : g.Reports root (visit o)) :
    g.Reports root (g.listedFailures visit b (g.opsIn b).getLast? o) := by
  have hop : g.op o = .ok d := Table.demand_eq_ok_iff.2 hd
  unfold listedFailures
  rw [hop, ok_bind]
  refine hvisit.bind fun inner hinner => ?_
  intro f hf
  rcases List.mem_append.1 hf with hf | hf
  · rcases List.mem_append.1 hf with hf | hf
    · obtain ⟨hbroken, -⟩ := mem_report.1 hf
      simp [hparent] at hbroken
    · obtain ⟨hbroken, rfl⟩ := mem_report.1 hf
      obtain ⟨hterminator, hlast⟩ := Bool.and_eq_true_iff.1 hbroken
      exact .terminatorLast hin hlisted hd hterminator fun heq => bne_iff_ne.1 hlast heq.symm
  · exact hinner f hf

theorem reports_blockFailures {d : BlockData} (hd : g.blocks.find? b = some d)
    (h : g.BlockIntact r b d) (hin : g.Within (.block b) (.op root))
    (hvisit : ∀ o ∈ g.opsIn b, g.Reports root (visit o)) :
    g.Reports root (g.blockFailures visit r b) := by
  have hblock : g.block b = .ok d := Table.demand_eq_ok_iff.2 hd
  have hitems : g.opsIn b = d.ops.items := opsIn_eq hd
  unfold blockFailures
  rw [hblock, ok_bind]
  have hargs : ∀ arg ∈ d.args.zipIdx, g.Reports root (g.brokenArgument b arg) := by
    intro arg harg
    rw [h.args arg harg]
    exact reports_nil
  have hops : ∀ o ∈ d.ops.items, g.Reports root (g.listedFailures visit b d.ops.back? o) := by
    intro o ho
    obtain ⟨e, he, hparent⟩ := h.ops o ho
    rw [Roster.back?, ← hitems]
    rw [← hitems] at ho
    exact reports_listedFailures he hparent hin ho (hvisit o ho)
  refine reports_mapM_bind hargs fun args hargs => ?_
  refine reports_mapM_bind hops fun ops hops => ?_
  rw [h.owner, bne_self_eq_false, report_false, List.nil_append]
  intro f hf
  rcases List.mem_append.1 hf with hf | hf
  · exact hargs f hf
  · exact hops f hf

theorem reports_regionFailures {d : RegionData} (hd : g.regions.find? r = some d)
    (h : g.RegionIntact o r d) (hin : g.Within (.region r) (.op root))
    (hvisit : ∀ b ∈ g.blocksIn r, ∀ o ∈ g.opsIn b, g.Reports root (visit o)) :
    g.Reports root (g.regionFailures visit o r) := by
  have hitems : g.blocksIn r = d.blocks.items := blocksIn_eq hd
  have hblocks : ∀ b ∈ d.blocks.items, g.Reports root (g.blockFailures visit r b) := by
    intro b hb
    obtain ⟨e, he, hintact⟩ := h.blocks b hb
    rw [← hitems] at hb
    exact reports_blockFailures he hintact (hin.tail (.block hb)) (hvisit b hb)
  unfold regionFailures
  rw [hd]
  refine reports_mapM_bind hblocks fun blocks hblocks => ?_
  rw [h.parent, bne_self_eq_false, report_false, List.nil_append]
  exact hblocks

theorem reports_failuresWithin_succ {levels : Nat} {d : OpData V} (hd : g.ops.find? o = some d)
    (h : g.Intact o d) (hin : g.Within (.op o) (.op root))
    (hvisit : ∀ r ∈ g.regionsOf o, ∀ b ∈ g.blocksIn r, ∀ o' ∈ g.opsIn b,
      g.Reports root (g.failuresWithin levels o')) :
    g.Reports root (g.failuresWithin (levels + 1) o) := by
  have hop : g.op o = .ok d := Table.demand_eq_ok_iff.2 hd
  have hitems : g.regionsOf o = d.regions := regionsOf_eq hd
  have hresults : ∀ v ∈ d.results, g.Reports root (g.staleUses v) := by
    intro v hv
    rw [h.results v hv]
    exact reports_nil
  have hregions : ∀ r ∈ d.regions,
      g.Reports root (g.regionFailures (g.failuresWithin levels) o r) := by
    intro r hr
    obtain ⟨e, he, hintact⟩ := h.regions r hr
    rw [← hitems] at hr
    exact reports_regionFailures he hintact (hin.tail (.region hr)) (hvisit r hr)
  unfold failuresWithin
  rw [hop, ok_bind]
  refine (reports_rules hd h hin).bind fun rules hrules => ?_
  refine reports_mapM_bind hresults fun results hresults => ?_
  refine reports_mapM_bind hregions fun regions hregions => ?_
  have hoperands : d.operands.zipIdx.flatMap (g.unregisteredOperand o d) = [] :=
    List.flatMap_eq_nil_iff.2 h.operands
  rw [h.parent, hoperands, List.append_nil, List.append_nil]
  intro f hf
  simp only [List.mem_append] at hf
  rcases hf with ((hf | hf) | hf) | hf
  · exact hrules f hf
  · exact hresults f hf
  · exact hregions f hf
  · cases ht : d.symbols with
    | none =>
        rw [ht] at hf
        cases hf
    | some t =>
        rw [ht] at hf
        obtain ⟨entry, hentry, hf⟩ := List.mem_flatMap.1 hf
        rw [h.symbols t ht entry hentry] at hf
        cases hf

end Levels

/-! ## The whole walk -/

private theorem reports_failuresWithin (ho : g.Owned) (ha : g.Acyclic)
    (hintact : ∀ {o d}, g.ops.find? o = some d → g.Intact o d) {levels : Nat} {o : Op}
    (hlive : g.ops.contains o = true) (hin : g.Within (.op o) (.op root))
    (hlevels : countNested Node.op g g.ops.keys o < levels) :
    g.Reports root (g.failuresWithin levels o) := by
  induction levels generalizing o with
  | zero => omega
  | succ levels ih =>
      obtain ⟨d, hd⟩ := Table.contains_iff.1 hlive
      refine reports_failuresWithin_succ hd (hintact hd) hin fun r hr b hb o' ho' => ?_
      have hstep : g.Encloses (.op o) (.op o') :=
        TransGen.tail (TransGen.tail (.single (.region hr)) (.block hb)) (.op ho')
      have hinner := ho.op_of_mem_opsIn ho'
      have hfewer := countNested_lt Node.op ha
        (Table.mem_keys_iff.2 (Table.contains_iff.1 hinner)) hstep
      exact ih hinner (hin.trans hstep.to_reflTransGen) (by omega)

/-- Verification of a live operation ends, and what it reports is tolerated. -/
theorem reports_failures (ho : g.Owned) (ha : g.Acyclic)
    (hintact : ∀ {o d}, g.ops.find? o = some d → g.Intact o d) {o : Op}
    (hlive : g.ops.contains o = true) : g.Reports o (g.failures o) := by
  refine reports_failuresWithin ho ha hintact hlive .refl ?_
  have hle : countNested Node.op g g.ops.keys o ≤ g.ops.keys.length := countBehind_le _ _ o
  rw [Table.length_keys] at hle
  omega

end Graph

end RegionIR
