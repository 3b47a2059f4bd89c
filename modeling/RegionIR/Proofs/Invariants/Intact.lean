import RegionIR.Proofs.Graph.Verify
import RegionIR.Proofs.Invariants.Sound

/-!
# Operations of sound graphs are intact

Each check of verification looks at one invariant, from the end where the
check stands.  The parent rule is the one that needs a walk: it asks whether
the parent block lies inside the operation, and in a graph without cycles the
walk ends and says no.

## Main results

* `Sound.intact` — every operation of a sound graph is intact.
* `Sound.settles_verify` — so verification ends, and what it reports is tolerated.
-/

namespace RegionIR.Graph

open Relation

variable {V : Type} {g : Graph V} {n : NextHandles} {o : Op} {d : OpData V} {b : Block}

/-! ## Uses -/

theorem UsesMatch.unregisteredOperand_eq_nil (h : g.UsesMatch) (hd : g.ops.find? o = some d)
    {slot : Value × Nat} (hslot : slot ∈ d.operands.zipIdx) :
    g.unregisteredOperand o d slot = [] := by
  have hi : d.operands[slot.2]? = some slot.1 := List.mem_zipIdx_iff_getElem?.1 hslot
  have hfills : g.slot? ⟨o, slot.2⟩ = some slot.1 := (slot?_eq hd slot.2).trans hi
  unfold unregisteredOperand
  cases he : g.values.find? slot.1 with
  | none => rfl
  | some e =>
      have hmem : ⟨o, slot.2⟩ ∈ e.uses := (h.mem (uses?_eq he)).2 hfills
      simp [hmem, report_false]

theorem UsesMatch.staleUses_eq_ok (h : g.UsesMatch) {v : Value}
    (hv : g.values.contains v = true) : g.staleUses v = .ok [] := by
  obtain ⟨e, he⟩ := Table.contains_iff.1 hv
  have hvalue : g.value v = .ok e := Table.demand_eq_ok_iff.2 he
  have hnone : ∀ u ∈ e.uses, report "use-list" (!g.refersTo v u)
      s!"use of {v} at operand #{u.index} of {u.user} does not refer to it" = [] := by
    intro u hu
    have hfills := (h.mem (uses?_eq he)).1 hu
    obtain ⟨d, hd, hi⟩ := Option.bind_eq_some_iff.1 hfills
    have hrefers : g.refersTo v u = true := by simp [refersTo, hd, hi]
    rw [hrefers]
    rfl
  unfold staleUses
  rw [hvalue, ok_bind]
  exact congrArg Except.ok (List.flatMap_eq_nil_iff.2 hnone)

/-! ## Producers -/

theorem Produced.brokenArgument_eq_ok (h : g.Produced) (hu : g.UsesMatch) {e : BlockData}
    (he : g.blocks.find? b = some e) {arg : Value × Nat} (harg : arg ∈ e.args.zipIdx) :
    g.brokenArgument b arg = .ok [] := by
  have hi : (g.argsOf b)[arg.2]? = some arg.1 := by
    rw [argsOf_eq he]
    exact List.mem_zipIdx_iff_getElem?.1 harg
  have horigin := h.argument.1 hi
  obtain ⟨f, hf, hsays⟩ := Option.map_eq_some_iff.1 horigin
  have hvalue : g.value arg.1 = .ok f := Table.demand_eq_ok_iff.2 hf
  unfold brokenArgument
  rw [hvalue, ok_bind, hu.staleUses_eq_ok (Table.contains_iff.2 ⟨f, hf⟩), ok_bind, hsays,
    bne_self_eq_false]
  rfl

/-! ## Symbols -/

theorem SymbolsNamed.brokenSymbol_eq_nil (h : g.SymbolsNamed) (hd : g.ops.find? o = some d)
    {t : Table String Op} (ht : d.symbols = some t) {entry : String × Op}
    (hentry : entry ∈ t.entries) : g.brokenSymbol entry = [] := by
  have hname := h.entry ((table?_eq hd).trans ht) ((t.mem_entries_iff _ _).1 hentry)
  obtain ⟨e, he, hsymbol⟩ := Option.bind_eq_some_iff.1 hname
  unfold brokenSymbol
  rw [he]
  by_cases htrait : e.hasTrait .symbol = true
  · rw [if_pos htrait] at hsymbol
    simp [htrait, hsymbol, report_false]
  · rw [if_neg htrait] at hsymbol
    cases hsymbol

/-! ## Owners -/

theorem Owned.unlistedInParent_eq_nil (h : g.Owned) (hd : g.ops.find? o = some d) :
    g.unlistedInParent o d = [] := by
  unfold unlistedInParent
  cases hparent : d.parent with
  | none => rfl
  | some b =>
      have hmem : o ∈ g.opsIn b := h.op.2 ((parent?_eq hd).trans hparent)
      obtain ⟨e, he⟩ := Table.contains_iff.1 (contains_of_mem_opsIn hmem)
      rw [opsIn_eq he] at hmem
      have hlisted : o ∈ e.ops := hmem
      simp [he, hlisted, report_false]

theorem Owned.badParent_eq_ok (h : g.Owned) (ha : g.Acyclic) (hd : g.ops.find? o = some d) :
    (OpView.mk g o d).badParent = .ok none := by
  unfold OpView.badParent
  dsimp only
  cases hparent : d.parent with
  | none => rfl
  | some b =>
      have hlists : g.Holds (.block b) (.op o) := .op (h.op.2 ((parent?_eq hd).trans hparent))
      have hlive := h.block_of_parent? ((parent?_eq hd).trans hparent)
      obtain ⟨inside, hinside, hiff⟩ := blockInside_eq_ok h ha b d.regions
      have hout : inside = false := by
        rw [← Bool.not_eq_true, hiff]
        rintro ⟨r, hr, hin⟩
        have hheld : g.Holds (.op o) (.region r) := .region (regionsOf_eq hd ▸ hr)
        exact ha _ (TransGen.head hheld (hin.tail hlists))
      dsimp only
      rw [hlive, if_neg (by decide), hinside, ok_bind, hout]
      rfl

theorem Sound.regionIntact (h : Sound g n) {r : Region} {e : RegionData}
    (he : g.regions.find? r = some e) (hr : r ∈ g.regionsOf o) : g.RegionIntact o r e where
  parent := (holder?_eq he).symm.trans (h.owned.region.1 hr)
  blocks := by
    intro b hb
    rw [← blocksIn_eq he] at hb
    obtain ⟨f, hf⟩ := Table.contains_iff.1 (h.owned.block_of_mem_blocksIn hb)
    refine ⟨f, hf, (owner?_eq hf).symm.trans (h.owned.block.1 hb), ?_, ?_⟩
    · intro arg harg
      exact h.produced.brokenArgument_eq_ok h.uses hf harg
    · intro o' ho'
      rw [← opsIn_eq hf] at ho'
      obtain ⟨d', hd'⟩ := Table.contains_iff.1 (h.owned.op_of_mem_opsIn ho')
      exact ⟨d', hd', (parent?_eq hd').symm.trans (h.owned.op.1 ho')⟩

/-! ## All checks -/

theorem Sound.check_builtinRules (h : Sound g n) (hd : g.ops.find? o = some d) :
    ∀ rule ∈ OpView.builtinRules, rule.check ⟨g, o, d⟩ = .ok none := by
  refine (OpView.check_builtinRules_iff ⟨g, o, d⟩).2 ⟨?_, ?_, ?_, ?_, ?_⟩
  · exact (OpView.missingOperand_eq_none_iff _ 0 _).2 fun v hv => h.uses.contains_operand hd hv
  · refine (OpView.foreignResult_eq_none_iff _ 0 _).2 fun i v hi => ?_
    rw [Nat.zero_add]
    exact h.produced.result.1 (resultsOf_eq hd ▸ hi)
  · refine (OpView.foreignRegion_eq_none_iff _ [] _).2 ⟨regionsOf_eq hd ▸ h.owned.nodup o, ?_⟩
    intro r hr
    have hmem : r ∈ g.regionsOf o := regionsOf_eq hd ▸ hr
    have hheld := h.owned.region.1 hmem
    refine ⟨List.not_mem_nil, h.owned.region_of_mem_regionsOf hmem, fun parent hparent => ?_⟩
    exact Option.some.inj (hparent.symm.trans hheld)
  · exact (OpView.missingSuccessor_eq_none_iff _).2 fun b hb => h.lawful.successor hd hb
  · exact h.owned.badParent_eq_ok h.acyclic hd

/-- Every operation of a sound graph passes every check apart from those of extra verifiers. -/
theorem Sound.intact (h : Sound g n) (hd : g.ops.find? o = some d) : g.Intact o d where
  rules := by
    intro rule hrule
    rcases List.mem_append.1 hrule with hbuiltin | htrait
    · exact h.check_builtinRules hd rule hbuiltin
    · obtain ⟨t, ht, rfl⟩ := List.mem_map.1 htrait
      have hmet := (OpView.brokenTrait_eq_none_iff ⟨g, o, d⟩ t).2 ((h.lawful.op hd).met t ht)
      exact congrArg Except.ok hmet
  parent := h.owned.unlistedInParent_eq_nil hd
  operands _ hslot := h.uses.unregisteredOperand_eq_nil hd hslot
  results := by
    intro v hv
    obtain ⟨i, hi⟩ := List.mem_iff_getElem?.1 hv
    have horigin := h.produced.result.1 (resultsOf_eq hd ▸ hi)
    exact h.uses.staleUses_eq_ok (contains_values_iff_origin?.2 ⟨_, horigin⟩)
  regions := by
    intro r hr
    rw [← regionsOf_eq hd] at hr
    obtain ⟨e, he⟩ := Table.contains_iff.1 (h.owned.region_of_mem_regionsOf hr)
    exact ⟨e, he, h.regionIntact he hr⟩
  symbols _ ht _ hentry := h.symbols.brokenSymbol_eq_nil hd ht hentry

/-! ## Verification -/

variable [OpVerifier V]

theorem Sound.reports_failures (h : Sound g n) (ho : g.ops.contains o = true) :
    g.Reports o (g.failures o) :=
  Graph.reports_failures h.owned h.acyclic h.intact ho

/-- An error of verification holds failures that are tolerated, and a fault is a verifier's. -/
theorem Sound.settles_verify (h : Sound g n) (ho : g.ops.contains o = true) :
    Settles (g.verify o) (fun outcome => ∀ e, outcome = some e → ∀ f ∈ e.failures,
      g.Tolerated o f) (g.VerifierFault o) := by
  unfold verify
  rw [settles_bind]
  refine Settles.mono (h.reports_failures ho) fun failures hfailures => ?_
  rw [settles_pure]
  intro e he f hf
  rw [(ValidationError.ofFailures_eq_some_iff failures e).1 he] at hf
  exact hfailures f hf

end RegionIR.Graph
