import RegionIR.Proofs.Graph.Stumbles
import RegionIR.Proofs.Graph.Verify

/-!
# What verification reports

A pass that ends has collected every complaint that there is, about every
entity it has come by, and nothing else.  The complaints are stated here one
by one, with their texts, without the walk that collects them: a complaint is
about one operation within the root, or about something that its regions list.

Most handles that lead nowhere have a complaint.  For a result there is one
too, but the pass that finds it does not end.

## Main results

* `Graph.Complains` — all complaints about what is within an operation.
* `Graph.lists_failures` — a pass that ends lists them.
* `Graph.verificationEnds` — when a pass ends, and what it reports.
-/

namespace RegionIR

/-- Where checks end, they have listed all complaints of one kind and no others. -/
def Lists (r : Except Fault (List RuleFailure)) (complaint : RuleFailure → Prop) : Prop :=
  ∀ failures, r = .ok failures → ∀ f, f ∈ failures ↔ complaint f

/-- What the members of a list complain about is listed in a row. -/
theorem mem_flatten_of_mapM {α : Type} {complaint : α → RuleFailure → Prop} {l : List α}
    {visit : α → Except Fault (List RuleFailure)} (h : ∀ x ∈ l, Lists (visit x) (complaint x))
    {lists : List (List RuleFailure)} (hlists : l.mapM visit = .ok lists) (f : RuleFailure) :
    f ∈ lists.flatten ↔ ∃ x ∈ l, complaint x f := by
  induction l generalizing lists with
  | nil =>
      cases hlists
      simp
  | cons x rest ih =>
      rw [List.mapM_cons] at hlists
      obtain ⟨failures, hfailures, hlists⟩ := bind_eq_ok_iff.1 hlists
      obtain ⟨others, hothers, heq⟩ := bind_eq_ok_iff.1 hlists
      cases heq
      have hfirst := h x List.mem_cons_self failures hfailures f
      have hrest := ih (fun y hy => h y (List.mem_cons_of_mem x hy)) hothers
      rw [List.flatten_cons, List.mem_append, hfirst, hrest]
      simp only [List.mem_cons, exists_eq_or_imp]

namespace Graph

variable {V : Type}

/-! ## The complaints -/

/-- A slot in the use list of a value does not hold the value. -/
inductive StaleUse (g : Graph V) (v : Value) : RuleFailure → Prop where
  | mk {e : ValueData} {u : Use} (he : g.values.find? v = some e) (hu : u ∈ e.uses)
      (hslot : g.slot? u ≠ some v) :
      StaleUse g v ⟨"use-list",
        s!"use of {v} at operand #{u.index} of {u.user} does not refer to it"⟩

/-- A complaint about an argument at a position of a block. -/
inductive ArgumentComplaint (g : Graph V) (b : Block) (v : Value) (i : Nat) :
    RuleFailure → Prop where
  | origin {e : ValueData} (he : g.values.find? v = some e)
      (horigin : e.origin ≠ .argument (some b) (some i)) :
      ArgumentComplaint g b v i ⟨"argument-index",
        s!"argument #{i} of block {b} has a wrong owner or index"⟩
  | use {f : RuleFailure} (h : g.StaleUse v f) : ArgumentComplaint g b v i f

/-- A complaint about the place of an operation in the block that lists it. -/
inductive ListedComplaint (g : Graph V) (b : Block) (o : Op) : RuleFailure → Prop where
  | parent {d : OpData V} (hd : g.ops.find? o = some d) (hparent : d.parent ≠ some b) :
      ListedComplaint g b o ⟨"op-parent",
        s!"{d.name} {o} in block {b} does not point back to it"⟩
  | terminator {d : OpData V} (hd : g.ops.find? o = some d) (hterminator : d.isTerminator = true)
      (hlast : (g.opsIn b).getLast? ≠ some o) :
      ListedComplaint g b o ⟨"terminator-last",
        s!"terminator {d.name} must be the last operation of block {b}"⟩

/-- A complaint about a block that a region lists, apart from what is nested in its operations. -/
inductive BlockComplaint (g : Graph V) (r : Region) (b : Block) : RuleFailure → Prop where
  | owner {e : BlockData} (he : g.blocks.find? b = some e) (howner : e.owner ≠ some r) :
      BlockComplaint g r b ⟨"block-owner",
        s!"block {b} of region {r} does not point back to it"⟩
  | argument {i : Nat} {v : Value} {f : RuleFailure} (hv : (g.argsOf b)[i]? = some v)
      (h : g.ArgumentComplaint b v i f) : BlockComplaint g r b f
  | listed {o : Op} {f : RuleFailure} (ho : o ∈ g.opsIn b) (h : g.ListedComplaint b o f) :
      BlockComplaint g r b f

/-- A complaint about a region that an operation lists, and about its blocks. -/
inductive RegionComplaint (g : Graph V) (o : Op) (r : Region) : RuleFailure → Prop where
  | parent {e : RegionData} (he : g.regions.find? r = some e) (hparent : e.parent ≠ some o) :
      RegionComplaint g o r ⟨"region-parent", s!"region {r} of {o} does not point back to it"⟩
  | block {b : Block} {f : RuleFailure} (hb : b ∈ g.blocksIn r) (h : g.BlockComplaint r b f) :
      RegionComplaint g o r f

/-- A complaint about an entry of a symbol table. -/
inductive SymbolComplaint (g : Graph V) (name : String) (s : Op) : RuleFailure → Prop where
  | missing (hs : g.ops.find? s = none) :
      SymbolComplaint g name s ⟨"symbol-table",
        s!"symbol `{name}` refers to operation {s} that does not exist"⟩
  | wrong {d : OpData V} (hd : g.ops.find? s = some d)
      (h : ¬ (d.hasTrait .symbol = true ∧ d.symbolName? = some name)) :
      SymbolComplaint g name s ⟨"symbol-table",
        s!"symbol `{name}` is not defined by operation {s}"⟩

section Complaints

variable [OpVerifier V]

/-- A complaint about one operation and what its regions list. -/
inductive ComplainsAt (g : Graph V) (o : Op) : RuleFailure → Prop where
  | rule {d : OpData V} {rule : Rule (OpView V)} {message : String}
      (hd : g.ops.find? o = some d) (hrule : rule ∈ (OpView.mk g o d).rules)
      (hcheck : rule.check ⟨g, o, d⟩ = .ok (some message)) :
      ComplainsAt g o ⟨rule.name, message⟩
  | unlisted {d : OpData V} {b : Block} (hd : g.ops.find? o = some d)
      (hparent : d.parent = some b) (hnot : o ∉ g.opsIn b) :
      ComplainsAt g o ⟨"op-parent", s!"{d.name} {o} is not listed in its parent block {b}"⟩
  | operand {d : OpData V} {i : Nat} {v : Value} {e : ValueData} (hd : g.ops.find? o = some d)
      (hv : d.operands[i]? = some v) (he : g.values.find? v = some e) (hnot : ⟨o, i⟩ ∉ e.uses) :
      ComplainsAt g o ⟨"use-list",
        s!"operand #{i} of {d.name} is missing from the use list of {v}"⟩
  | resultUse {v : Value} {f : RuleFailure} (hv : v ∈ g.resultsOf o) (h : g.StaleUse v f) :
      ComplainsAt g o f
  | region {r : Region} {f : RuleFailure} (hr : r ∈ g.regionsOf o)
      (h : g.RegionComplaint o r f) : ComplainsAt g o f
  | symbol {t : Table String Op} {name : String} {s : Op} {f : RuleFailure}
      (ht : g.table? o = some t) (hs : t.find? name = some s) (h : g.SymbolComplaint name s f) :
      ComplainsAt g o f

/-- A complaint about an operation or something nested in it. -/
def Complains (g : Graph V) (root : Op) (f : RuleFailure) : Prop :=
  ∃ o, g.Within (.op o) (.op root) ∧ g.ComplainsAt o f

end Complaints

variable {g : Graph V}

/-! ## Single links -/

theorem mem_unlistedInParent_iff {o : Op} {d : OpData V} {f : RuleFailure} :
    f ∈ g.unlistedInParent o d ↔ ∃ b, d.parent = some b ∧ o ∉ g.opsIn b ∧
      f = ⟨"op-parent", s!"{d.name} {o} is not listed in its parent block {b}"⟩ := by
  unfold unlistedInParent
  cases d.parent with
  | none => simp
  | some b =>
      cases hblock : g.blocks.find? b with
      | none => simp [mem_report, opsIn, hblock]
      | some e => simp [mem_report, opsIn_eq hblock, hblock, Roster.mem_def]

theorem mem_unregisteredOperand_iff {o : Op} {d : OpData V} {v : Value} {i : Nat}
    {f : RuleFailure} : f ∈ g.unregisteredOperand o d (v, i) ↔
      ∃ e, g.values.find? v = some e ∧ ⟨o, i⟩ ∉ e.uses ∧
        f = ⟨"use-list", s!"operand #{i} of {d.name} is missing from the use list of {v}"⟩ := by
  unfold unregisteredOperand
  cases hvalue : g.values.find? v with
  | none => simp [mem_report]
  | some e => simp [mem_report]

theorem mem_brokenSymbol_iff {name : String} {s : Op} {f : RuleFailure} :
    f ∈ g.brokenSymbol (name, s) ↔ g.SymbolComplaint name s f := by
  unfold brokenSymbol
  cases hop : g.ops.find? s with
  | none =>
      constructor
      · intro h
        cases List.mem_singleton.1 h
        exact .missing hop
      · rintro (_ | ⟨hd, _⟩)
        · exact List.mem_singleton.2 rfl
        · cases hop.symm.trans hd
  | some d =>
      have hbroken : (!d.hasTrait .symbol || d.symbolName? != some name) = true ↔
          ¬ (d.hasTrait .symbol = true ∧ d.symbolName? = some name) := by
        cases d.hasTrait .symbol <;> simp
      rw [mem_report, hbroken]
      constructor
      · rintro ⟨h, rfl⟩
        exact .wrong hop h
      · rintro (hnone | ⟨hd, h⟩)
        · cases hop.symm.trans hnone
        · cases hop.symm.trans hd
          exact ⟨h, rfl⟩

theorem refersTo_eq_slot? {v : Value} {u : Use} :
    g.refersTo v u = true ↔ g.slot? u = some v := by
  rw [refersTo_iff, slot?, Option.bind_eq_some_iff]

theorem lists_staleUses (v : Value) : Lists (g.staleUses v) (g.StaleUse v) := by
  intro failures h f
  obtain ⟨e, he, h⟩ := bind_eq_ok_iff.1 h
  cases h
  have hfind : g.values.find? v = some e := Table.demand_eq_ok_iff.1 he
  rw [List.mem_flatMap]
  constructor
  · rintro ⟨u, hu, hf⟩
    obtain ⟨hbroken, rfl⟩ := mem_report.1 hf
    refine .mk hfind hu fun hslot => ?_
    simp [refersTo_eq_slot?.2 hslot] at hbroken
  · rintro ⟨he', hu, hslot⟩
    cases hfind.symm.trans he'
    refine ⟨_, hu, mem_report.2 ⟨?_, rfl⟩⟩
    rw [Bool.not_eq_true', Bool.eq_false_iff]
    exact fun h => hslot (refersTo_eq_slot?.1 h)

theorem lists_brokenArgument (b : Block) (v : Value) (i : Nat) :
    Lists (g.brokenArgument b (v, i)) (g.ArgumentComplaint b v i) := by
  intro failures h f
  obtain ⟨e, he, h⟩ := bind_eq_ok_iff.1 h
  obtain ⟨stale, hstale, h⟩ := bind_eq_ok_iff.1 h
  cases h
  have hfind : g.values.find? v = some e := Table.demand_eq_ok_iff.1 he
  rw [List.mem_append, mem_report, bne_iff_ne, lists_staleUses v stale hstale f]
  constructor
  · rintro (⟨horigin, rfl⟩ | h)
    · exact .origin hfind horigin
    · exact .use h
  · rintro (⟨he', horigin⟩ | h)
    · cases hfind.symm.trans he'
      exact Or.inl ⟨horigin, rfl⟩
    · exact Or.inr h

/-! ## Lists of links -/

theorem mem_unregisteredOperands_iff {o : Op} {d : OpData V} {f : RuleFailure} :
    f ∈ d.operands.zipIdx.flatMap (g.unregisteredOperand o d) ↔
      ∃ i v e, d.operands[i]? = some v ∧ g.values.find? v = some e ∧ ⟨o, i⟩ ∉ e.uses ∧
        f = ⟨"use-list", s!"operand #{i} of {d.name} is missing from the use list of {v}"⟩ := by
  rw [List.mem_flatMap]
  constructor
  · rintro ⟨slot, hslot, h⟩
    obtain ⟨e, he, hnot, hf⟩ := mem_unregisteredOperand_iff.1 h
    exact ⟨slot.2, slot.1, e, List.mem_zipIdx_iff_getElem?.1 hslot, he, hnot, hf⟩
  · rintro ⟨i, v, e, hv, he, hnot, hf⟩
    exact ⟨(v, i), List.mem_zipIdx_iff_getElem?.2 hv,
      mem_unregisteredOperand_iff.2 ⟨e, he, hnot, hf⟩⟩

theorem mem_brokenSymbols_iff {symbols : Option (Table String Op)} {f : RuleFailure} :
    (f ∈ match symbols with
      | none => []
      | some t => t.entries.flatMap g.brokenSymbol) ↔
      ∃ t name s, symbols = some t ∧ t.find? name = some s ∧ g.SymbolComplaint name s f := by
  cases symbols with
  | none => simp
  | some t =>
      dsimp only
      rw [List.mem_flatMap]
      constructor
      · rintro ⟨⟨name, s⟩, hentry, h⟩
        exact ⟨t, name, s, rfl, (t.mem_entries_iff name s).1 hentry, mem_brokenSymbol_iff.1 h⟩
      · rintro ⟨_, name, s, ⟨⟩, hs, h⟩
        exact ⟨(name, s), (t.mem_entries_iff name s).2 hs, mem_brokenSymbol_iff.2 h⟩

/-! ## The levels of the walk -/

section Levels

variable {visit : Op → Except Fault (List RuleFailure)} {inner : Op → RuleFailure → Prop}

theorem lists_listedFailures (hvisit : ∀ o, Lists (visit o) (inner o)) (b : Block) (o : Op) :
    Lists (g.listedFailures visit b (g.opsIn b).getLast? o)
      fun f => g.ListedComplaint b o f ∨ inner o f := by
  intro failures h f
  obtain ⟨d, hd, h⟩ := bind_eq_ok_iff.1 h
  obtain ⟨nested, hnested, h⟩ := bind_eq_ok_iff.1 h
  cases h
  have hfind : g.ops.find? o = some d := Table.demand_eq_ok_iff.1 hd
  rw [List.mem_append, List.mem_append, mem_report, mem_report, bne_iff_ne, Bool.and_eq_true,
    bne_iff_ne, hvisit o nested hnested f]
  refine or_congr_left ?_
  constructor
  · rintro (⟨hparent, rfl⟩ | ⟨⟨hterminator, hlast⟩, rfl⟩)
    · exact .parent hfind hparent
    · exact .terminator hfind hterminator hlast.symm
  · rintro (⟨hd', hparent⟩ | ⟨hd', hterminator, hlast⟩)
    · cases hfind.symm.trans hd'
      exact Or.inl ⟨hparent, rfl⟩
    · cases hfind.symm.trans hd'
      exact Or.inr ⟨⟨hterminator, hlast.symm⟩, rfl⟩

theorem lists_blockFailures (hvisit : ∀ o, Lists (visit o) (inner o)) (r : Region) (b : Block) :
    Lists (g.blockFailures visit r b)
      fun f => g.BlockComplaint r b f ∨ ∃ o ∈ g.opsIn b, inner o f := by
  intro failures h f
  obtain ⟨d, hd, h⟩ := bind_eq_ok_iff.1 h
  obtain ⟨args, hargs, h⟩ := bind_eq_ok_iff.1 h
  obtain ⟨ops, hops, h⟩ := bind_eq_ok_iff.1 h
  cases h
  have hfind : g.blocks.find? b = some d := Table.demand_eq_ok_iff.1 hd
  have hitems : d.ops.items = g.opsIn b := (opsIn_eq hfind).symm
  rw [Roster.back?, hitems] at hops
  have hargs := mem_flatten_of_mapM
    (fun arg _ => lists_brokenArgument (g := g) b arg.1 arg.2) hargs f
  have hops := mem_flatten_of_mapM (fun o _ => lists_listedFailures hvisit b o) hops f
  rw [List.mem_append, List.mem_append, mem_report, bne_iff_ne, hargs, hops]
  constructor
  · rintro ((⟨howner, rfl⟩ | ⟨arg, harg, h⟩) | ⟨o, ho, h | h⟩)
    · exact Or.inl (.owner hfind howner)
    · have hat := List.mem_zipIdx_iff_getElem?.1 harg
      exact Or.inl (.argument (argsOf_eq hfind ▸ hat) h)
    · exact Or.inl (.listed ho h)
    · exact Or.inr ⟨o, ho, h⟩
  · rintro (h | ⟨o, ho, h⟩)
    · cases h with
      | owner he howner =>
          cases hfind.symm.trans he
          exact Or.inl (Or.inl ⟨howner, rfl⟩)
      | @argument i v _ hv h =>
          rw [argsOf_eq hfind] at hv
          exact Or.inl (Or.inr ⟨(v, i), List.mem_zipIdx_iff_getElem?.2 hv, h⟩)
      | listed ho h => exact Or.inr ⟨_, ho, Or.inl h⟩
    · exact Or.inr ⟨o, ho, Or.inr h⟩

theorem lists_regionFailures (hvisit : ∀ o, Lists (visit o) (inner o)) (o : Op) (r : Region) :
    Lists (g.regionFailures visit o r)
      fun f => g.RegionComplaint o r f ∨ ∃ b ∈ g.blocksIn r, ∃ o' ∈ g.opsIn b, inner o' f := by
  intro failures h f
  unfold regionFailures at h
  cases hfind : g.regions.find? r with
  | none =>
      rw [hfind] at h
      cases h
      have hempty : g.blocksIn r = [] := by simp [blocksIn, hfind]
      refine iff_of_false List.not_mem_nil ?_
      rintro (h | ⟨b, hb, -⟩)
      · cases h with
        | parent he _ => cases hfind.symm.trans he
        | block hb _ => exact absurd (hempty ▸ hb) List.not_mem_nil
      · exact absurd (hempty ▸ hb) List.not_mem_nil
  | some e =>
      rw [hfind] at h
      obtain ⟨blocks, hblocks, h⟩ := bind_eq_ok_iff.1 h
      cases h
      have hblocks := mem_flatten_of_mapM
        (fun b _ => lists_blockFailures (g := g) hvisit r b) hblocks f
      rw [List.mem_append, mem_report, bne_iff_ne, hblocks, ← blocksIn_eq hfind]
      constructor
      · rintro (⟨hparent, rfl⟩ | ⟨b, hb, h | h⟩)
        · exact Or.inl (.parent hfind hparent)
        · exact Or.inl (.block hb h)
        · exact Or.inr ⟨b, hb, h⟩
      · rintro (h | ⟨b, hb, h⟩)
        · cases h with
          | parent he hparent =>
              cases hfind.symm.trans he
              exact Or.inl ⟨hparent, rfl⟩
          | block hb h => exact Or.inr ⟨_, hb, Or.inl h⟩
        · exact Or.inr ⟨b, hb, Or.inr h⟩

end Levels

section Walk

variable [OpVerifier V]

theorem lists_rules (w : OpView V) : Lists w.failures fun f => ∃ rule ∈ w.rules,
    rule.name = f.rule ∧ rule.check w = .ok (some f.message) := by
  intro failures h f
  constructor
  · exact Rule.exists_check_of_mem_collect h
  · rintro ⟨rule, hrule, hname, hcheck⟩
    have hmem := Rule.mem_collect_of_check h hrule hcheck
    rwa [hname] at hmem

theorem lists_failuresWithin_succ {levels : Nat} {inner : Op → RuleFailure → Prop}
    (hvisit : ∀ o, Lists (g.failuresWithin levels o) (inner o)) (o : Op) :
    Lists (g.failuresWithin (levels + 1) o)
      fun f => g.ComplainsAt o f ∨ ∃ o', g.Below o' o ∧ inner o' f := by
  intro failures h f
  obtain ⟨d, hd, h⟩ := bind_eq_ok_iff.1 h
  obtain ⟨rules, hrules, h⟩ := bind_eq_ok_iff.1 h
  obtain ⟨results, hresults, h⟩ := bind_eq_ok_iff.1 h
  obtain ⟨regions, hregions, h⟩ := bind_eq_ok_iff.1 h
  cases h
  have hfind : g.ops.find? o = some d := Table.demand_eq_ok_iff.1 hd
  have hrules := lists_rules _ rules hrules f
  have hresults := mem_flatten_of_mapM (fun v _ => lists_staleUses (g := g) v) hresults f
  have hregions := mem_flatten_of_mapM
    (fun r _ => lists_regionFailures (g := g) hvisit o r) hregions f
  rw [List.mem_append]
  refine (or_congr_right mem_brokenSymbols_iff).trans ?_
  simp only [List.mem_append, hrules, mem_unlistedInParent_iff, mem_unregisteredOperands_iff,
    hresults, hregions]
  rw [← resultsOf_eq hfind, ← regionsOf_eq hfind, ← table?_eq hfind]
  constructor
  · rintro (((((⟨rule, hrule, hname, hcheck⟩ | ⟨b, hparent, hnot, rfl⟩) |
      ⟨i, v, e, hv, he, hnot, rfl⟩) | ⟨v, hv, h⟩) | ⟨r, hr, h | ⟨b, hb, o', ho', h⟩⟩) |
      ⟨t, name, s, ht, hs, h⟩)
    · obtain ⟨name, message⟩ := f
      cases hname
      exact Or.inl (.rule hfind hrule hcheck)
    · exact Or.inl (.unlisted hfind hparent hnot)
    · exact Or.inl (.operand hfind hv he hnot)
    · exact Or.inl (.resultUse hv h)
    · exact Or.inl (.region hr h)
    · exact Or.inr ⟨o', ⟨r, hr, b, hb, ho'⟩, h⟩
    · exact Or.inl (.symbol ht hs h)
  · rintro (h | ⟨o', ⟨r, hr, b, hb, ho'⟩, h⟩)
    · cases h with
      | rule hd hrule hcheck =>
          cases hfind.symm.trans hd
          exact Or.inl (Or.inl (Or.inl (Or.inl (Or.inl ⟨_, hrule, rfl, hcheck⟩))))
      | unlisted hd hparent hnot =>
          cases hfind.symm.trans hd
          exact Or.inl (Or.inl (Or.inl (Or.inl (Or.inr ⟨_, hparent, hnot, rfl⟩))))
      | operand hd hv he hnot =>
          cases hfind.symm.trans hd
          exact Or.inl (Or.inl (Or.inl (Or.inr ⟨_, _, _, hv, he, hnot, rfl⟩)))
      | resultUse hv h => exact Or.inl (Or.inl (Or.inr ⟨_, hv, h⟩))
      | region hr h => exact Or.inl (Or.inr ⟨_, hr, Or.inl h⟩)
      | symbol ht hs h => exact Or.inr ⟨_, _, _, ht, hs, h⟩
    · exact Or.inl (Or.inr ⟨r, hr, Or.inr ⟨b, hb, o', ho', h⟩⟩)

/-- At every depth a pass that ends has listed the complaints about what it reaches. -/
theorem lists_failuresWithin (levels : Nat) (o : Op) :
    Lists (g.failuresWithin levels o) (g.Complains o) := by
  induction levels generalizing o with
  | zero =>
      intro failures h
      cases h
  | succ levels ih =>
      intro failures hrun f
      rw [lists_failuresWithin_succ ih o failures hrun f]
      exact (exists_within_op_iff (P := (g.ComplainsAt · f))).symm

theorem lists_failures (root : Op) : Lists (g.failures root) (g.Complains root) :=
  lists_failuresWithin _ root

/-! ## Handles that lead nowhere -/

/-- Handles that lead nowhere, and the rules that complain about them. -/
structure DanglingReported (g : Graph V) (root : Op) : Prop where
  operand : ∀ {o d v}, g.Within (.op o) (.op root) → g.ops.find? o = some d → v ∈ d.operands →
    g.values.find? v = none → ∃ message, g.Complains root ⟨OpView.operandsExist, message⟩
  result : ∀ {o d v}, g.Within (.op o) (.op root) → g.ops.find? o = some d → v ∈ d.results →
    g.values.find? v = none → ∃ message, g.Complains root ⟨"results-owned", message⟩
  region : ∀ {o d r}, g.Within (.op o) (.op root) → g.ops.find? o = some d → r ∈ d.regions →
    g.regions.find? r = none → ∃ message, g.Complains root ⟨"regions-owned", message⟩
  successor : ∀ {o d b}, g.Within (.op o) (.op root) → g.ops.find? o = some d →
    b ∈ d.successors → g.blocks.find? b = none →
      ∃ message, g.Complains root ⟨"successors-exist", message⟩
  parent : ∀ {o d b}, g.Within (.op o) (.op root) → g.ops.find? o = some d →
    d.parent = some b → g.blocks.find? b = none →
      g.Complains root ⟨"op-parent", s!"{d.name} {o} is not listed in its parent block {b}"⟩
  symbol : ∀ {o d t name s}, g.Within (.op o) (.op root) → g.ops.find? o = some d →
    d.symbols = some t → t.find? name = some s → g.ops.find? s = none →
      g.Complains root ⟨"symbol-table",
        s!"symbol `{name}` refers to operation {s} that does not exist"⟩

/-- A rule that does not pass complains. -/
theorem complains_of_check {root o : Op} {d : OpData V} (hin : g.Within (.op o) (.op root))
    (hd : g.ops.find? o = some d) {rule : Rule (OpView V)} (hrule : rule ∈ OpView.builtinRules)
    {outcome : Option String} (hcheck : rule.check ⟨g, o, d⟩ = .ok outcome)
    (hbroken : outcome ≠ none) : ∃ message, g.Complains root ⟨rule.name, message⟩ := by
  obtain ⟨message, rfl⟩ := Option.ne_none_iff_exists'.1 hbroken
  refine ⟨message, o, hin, .rule hd ?_ hcheck⟩
  rw [OpView.rules, List.mem_append, List.mem_append]
  exact Or.inl (Or.inl hrule)

theorem danglingReported (g : Graph V) (root : Op) : g.DanglingReported root where
  operand := by
    intro o d v hin hd hv hnone
    have hrule : (⟨OpView.operandsExist, fun w => .ok (w.missingOperand 0 w.data.operands)⟩ :
        Rule (OpView V)) ∈ OpView.builtinRules := by simp [OpView.builtinRules]
    refine complains_of_check hin hd hrule rfl fun hpass => ?_
    have hlive := (OpView.missingOperand_eq_none_iff _ _ _).1 hpass v hv
    rw [Table.contains, hnone] at hlive
    cases hlive
  result := by
    intro o d v hin hd hv hnone
    have hrule : (⟨"results-owned", fun w => .ok (w.foreignResult 0 w.data.results)⟩ :
        Rule (OpView V)) ∈ OpView.builtinRules := by simp [OpView.builtinRules]
    refine complains_of_check hin hd hrule rfl fun hpass => ?_
    obtain ⟨i, hi⟩ := List.mem_iff_getElem?.1 hv
    have horigin := (OpView.foreignResult_eq_none_iff _ _ _).1 hpass i v hi
    rw [origin?_eq_none hnone] at horigin
    cases horigin
  region := by
    intro o d r hin hd hr hnone
    have hrule : (⟨"regions-owned", fun w => .ok (w.foreignRegion [] w.data.regions)⟩ :
        Rule (OpView V)) ∈ OpView.builtinRules := by simp [OpView.builtinRules]
    refine complains_of_check hin hd hrule rfl fun hpass => ?_
    have hlive := (((OpView.foreignRegion_eq_none_iff _ _ _).1 hpass).2 r hr).2.1
    rw [Table.contains, hnone] at hlive
    cases hlive
  successor := by
    intro o d b hin hd hb hnone
    have hrule : (⟨"successors-exist", fun w => .ok w.missingSuccessor⟩ : Rule (OpView V)) ∈
        OpView.builtinRules := by simp [OpView.builtinRules]
    refine complains_of_check hin hd hrule rfl fun hpass => ?_
    have hlive := (OpView.missingSuccessor_eq_none_iff _).1 hpass b hb
    rw [Table.contains, hnone] at hlive
    cases hlive
  parent := by
    intro o d b hin hd hparent hnone
    refine ⟨o, hin, .unlisted hd hparent fun hlisted => ?_⟩
    rw [opsIn, hnone] at hlisted
    cases hlisted
  symbol hin hd ht hs hnone := ⟨_, hin, .symbol ((table?_eq hd).trans ht) hs (.missing hnone)⟩

/-! ## The guarantee -/

/-- How verification ends.  It has no answer just where there is a cause for a fault, and then
nothing is reported.  An answer consists of all complaints. -/
structure VerificationEnds (g : Graph V) (root : Op) : Prop where
  ends_iff : (∃ outcome, g.verify root = .ok outcome) ↔ ∀ c, ¬ g.Stumbles root c
  of_fault : ∀ {c}, g.verify root = .error c → g.Stumbles root c
  of_passed : g.verify root = .ok none → ∀ f, ¬ g.Complains root f
  of_failed : ∀ {e}, g.verify root = .ok (some e) → ∀ f, f ∈ e.failures ↔ g.Complains root f
  dangling : g.DanglingReported root

/-- Verification of an operation that is there reports every complaint about a graph in which the
walk down ends, unless it comes by a result, an argument, a listed block or a listed operation that
does not exist, or by a parent block from which the way up has no end. -/
theorem verificationEnds {root : Op} (hroot : g.ops.contains root = true)
    (hacc : Acc g.Below root) (hverifiers : g.VerifiersAnswer root) : g.VerificationEnds root where
  ends_iff := ((stops_failures hroot hacc hverifiers).bind_pure _).ok_iff
  of_fault := ((stops_failures hroot hacc hverifiers).bind_pure _).of_error
  of_passed := by
    intro h f hf
    obtain ⟨failures, hfailures, h⟩ := bind_eq_ok_iff.1 h
    have hnil := (ValidationError.ofFailures_eq_none_iff failures).1 (Except.ok.inj h)
    subst hnil
    exact List.not_mem_nil ((lists_failures root _ hfailures f).2 hf)
  of_failed := by
    intro e h f
    obtain ⟨failures, hfailures, h⟩ := bind_eq_ok_iff.1 h
    rw [(ValidationError.ofFailures_eq_some_iff failures e).1 (Except.ok.inj h)]
    exact lists_failures root failures hfailures f
  dangling := danglingReported g root

end Walk

/-! ## A result that does not exist -/

/-- An operation in a graph without any value. -/
def loneOp (operands results : List Value) : Graph DialectVerifier where
  ops := Table.empty.insert ⟨1⟩
    { name := "test.op", operands, results, attrs := .empty, regions := [], successors := [],
      parent := none, traits := [], verifiers := [], symbols := none }

theorem find?_ops_loneOp {operands results : List Value} {o : Op} {d : OpData DialectVerifier}
    (h : (loneOp operands results).ops.find? o = some d) :
    d.regions = [] ∧ d.parent = none ∧ d.verifiers = [] := by
  rw [loneOp, Table.find?_insert] at h
  split at h
  · cases h
    exact ⟨rfl, rfl, rfl⟩
  · cases h

theorem acc_loneOp (operands results : List Value) (o : Op) :
    Acc (loneOp operands results).Below o := by
  refine .intro o fun o' ⟨r, hr, _⟩ => ?_
  obtain ⟨d, hd⟩ := Table.contains_iff.1 (contains_of_mem_regionsOf hr)
  rw [regionsOf_eq hd, (find?_ops_loneOp hd).1] at hr
  cases hr

theorem verifiersAnswer_loneOp (operands results : List Value) (o : Op) :
    (loneOp operands results).VerifiersAnswer o := by
  intro o' d v _ hd hv
  rw [(find?_ops_loneOp hd).2.2] at hv
  cases hv

/-- A missing operand is reported.  With a missing result beside it, nothing is. -/
theorem verificationEnds_loneOp :
    ((loneOp [⟨9⟩] []).ops.contains ⟨1⟩ = true ∧ Acc (loneOp [⟨9⟩] []).Below ⟨1⟩ ∧
      (loneOp [⟨9⟩] []).VerifiersAnswer ⟨1⟩ ∧ ∃ e message,
        (loneOp [⟨9⟩] []).verify ⟨1⟩ = .ok (some e) ∧
          ⟨OpView.operandsExist, message⟩ ∈ e.failures) ∧
    ((loneOp [⟨9⟩] [⟨8⟩]).ops.contains ⟨1⟩ = true ∧ Acc (loneOp [⟨9⟩] [⟨8⟩]).Below ⟨1⟩ ∧
      (loneOp [⟨9⟩] [⟨8⟩]).VerifiersAnswer ⟨1⟩ ∧ ∃ c message,
        (loneOp [⟨9⟩] [⟨8⟩]).verify ⟨1⟩ = .error c ∧ (loneOp [⟨9⟩] [⟨8⟩]).Stumbles ⟨1⟩ c ∧
          (loneOp [⟨9⟩] [⟨8⟩]).Complains ⟨1⟩ ⟨"results-owned", message⟩) := by
  have hends (results : List Value) : (loneOp [⟨9⟩] results).VerificationEnds ⟨1⟩ :=
    verificationEnds rfl (acc_loneOp _ _ _) (verifiersAnswer_loneOp _ _ _)
  obtain ⟨e, he⟩ : ∃ e, (loneOp [⟨9⟩] []).verify ⟨1⟩ = .ok (some e) := ⟨_, rfl⟩
  have hstops : (loneOp [⟨9⟩] [⟨8⟩]).verify ⟨1⟩ = .error (.missing .value) := rfl
  obtain ⟨message, hoperand⟩ := (hends []).dangling.operand .refl rfl List.mem_cons_self rfl
  obtain ⟨message', hresult⟩ := (hends [⟨8⟩]).dangling.result .refl rfl List.mem_cons_self rfl
  refine ⟨⟨rfl, acc_loneOp _ _ _, verifiersAnswer_loneOp _ _ _, e, message, he, ?_⟩,
    rfl, acc_loneOp _ _ _, verifiersAnswer_loneOp _ _ _, _, message', hstops, ?_, hresult⟩
  · exact ((hends []).of_failed he _).2 hoperand
  · exact (hends [⟨8⟩]).of_fault hstops

/-- The operation is there, nothing is nested in it, and no walk leads up from it. -/
theorem verify_meets_fault : ¬ ∀ (g : Graph DialectVerifier) (root : Op),
    g.ops.contains root = true → Acc g.Below root →
      (∀ {o d b}, g.Within (.op o) (.op root) → g.ops.find? o = some d → d.parent = some b →
        Acc (g.Above d.regions) b) →
      g.VerifiersAnswer root → ∃ outcome, g.verify root = .ok outcome := by
  intro hall
  obtain ⟨outcome, houtcome⟩ := hall (loneOp [] [⟨1⟩]) ⟨1⟩ rfl (acc_loneOp _ _ _)
    (fun _ hd hparent => by
      rw [(find?_ops_loneOp hd).2.1] at hparent
      cases hparent)
    (verifiersAnswer_loneOp _ _ _)
  have hstops : (loneOp [] [⟨1⟩]).verify ⟨1⟩ = .error (.missing .value) := rfl
  cases hstops.symm.trans houtcome

end Graph

end RegionIR
