import RegionIR.Dialect
import RegionIR.Graph.Verify
import RegionIR.Proofs.Graph.Rules

/-!
# What verification decides

Verification is for graphs that nobody vouches for: any field may have been
overwritten, and any entry may be gone.  So nothing is assumed of the graph
here.  A part of the walk either meets a fault, and then decides nothing, or
it ends with a list of failures, and then the list is empty just if a
condition on the entries holds.

Several conditions are covered only by two checks together.  The rule about
regions lets a region pass that names no operation, and the walk skips a
region that is missing; the check of a slot in a use list skips a missing
value; the walk up from a parent block asks nothing about the list of that
block.  Each check has its own statement below, and they are put together for
one operation at the end.

## Main results

* `Graph.Consistent` — what is asked of an operation and of what it lists.
* `Graph.decides_blockFailures`, `Graph.decides_regionFailures`,
  `Graph.decides_failuresWithin` — the levels of the walk.
* `Graph.verify_eq_none_iff` — verification passes iff everything within the
  operation is consistent.
-/

namespace RegionIR

open Relation

/-! ## Consistent operations -/

namespace Graph

variable {V : Type}

/-- Every use names an operation of the graph that has the value at just that operand. -/
def UsesRefer (g : Graph V) (v : Value) (uses : List Use) : Prop :=
  ∀ u ∈ uses, ∃ d, g.ops.find? u.user = some d ∧ d.operands[u.index]? = some v

/-- A value is in the graph with the given origin, and all of its uses refer to it. -/
structure ValueConsistent (g : Graph V) (v : Value) (x : Origin) (e : ValueData) : Prop where
  origin : e.origin = x
  uses : g.UsesRefer v e.uses

/-- A block that a region lists: its links, its arguments and the operations in it. -/
structure BlockConsistent (g : Graph V) (r : Region) (b : Block) (e : BlockData) : Prop where
  owner : e.owner = some r
  args : ∀ i v, e.args[i]? = some v → ∃ d, g.values.find? v = some d ∧
    g.ValueConsistent v (.argument (some b) (some i)) d
  ops : ∀ o ∈ e.ops, ∃ d, g.ops.find? o = some d ∧ d.parent = some b ∧
    (d.isTerminator = true → e.ops.back? = some o)

/-- A region that an operation lists, with its blocks. -/
structure RegionConsistent (g : Graph V) (o : Op) (r : Region) (e : RegionData) : Prop where
  parent : e.parent = some o
  blocks : ∀ b ∈ e.blocks, ∃ d, g.blocks.find? b = some d ∧ g.BlockConsistent r b d

/-- An operation: what it names, what names it, its traits and its extra verifiers. -/
structure Consistent [OpVerifier V] (g : Graph V) (o : Op) (d : OpData V) : Prop where
  operands : ∀ i v, d.operands[i]? = some v →
    ∃ e, g.values.find? v = some e ∧ ⟨o, i⟩ ∈ e.uses
  results : ∀ i v, d.results[i]? = some v →
    ∃ e, g.values.find? v = some e ∧ g.ValueConsistent v (.result o i) e
  regions_nodup : d.regions.Nodup
  regions : ∀ r ∈ d.regions, ∃ e, g.regions.find? r = some e ∧ g.RegionConsistent o r e
  successors : ∀ b ∈ d.successors, g.blocks.contains b = true
  parent : ∀ b, d.parent = some b →
    (∃ e, g.blocks.find? b = some e ∧ o ∈ e.ops) ∧ ∀ r ∈ d.regions, ¬ g.Inside b r
  traits : ∀ t ∈ d.traits, t.Met d
  verifiers : ∀ v ∈ d.verifiers, OpVerifier.check v ⟨g, o, d⟩ = .ok none
  symbols : ∀ t name s, d.symbols = some t → t.find? name = some s →
    ∃ e, g.ops.find? s = some e ∧ e.hasTrait .symbol = true ∧ e.symbolName? = some name

end Graph

/-- Members that decide their conditions decide together that all of them hold. -/
theorem flatten_mapM_eq_nil_iff {α : Type} {P : α → Prop} {l : List α}
    {visit : α → Except Fault (List RuleFailure)} (h : ∀ x ∈ l, Decides (visit x) (P x))
    {lists : List (List RuleFailure)} (hlists : l.mapM visit = .ok lists) :
    lists.flatten = [] ↔ ∀ x ∈ l, P x := by
  induction l generalizing lists with
  | nil =>
      cases hlists
      simp
  | cons x rest ih =>
      rw [List.mapM_cons] at hlists
      obtain ⟨failures, hfailures, hlists⟩ := bind_eq_ok_iff.1 hlists
      obtain ⟨others, hothers, heq⟩ := bind_eq_ok_iff.1 hlists
      cases heq
      have hfirst := h x List.mem_cons_self failures hfailures
      have hrest := ih (fun y hy => h y (List.mem_cons_of_mem x hy)) hothers
      rw [List.flatten_cons, List.append_eq_nil_iff, List.forall_mem_cons, hfirst, hrest]

namespace Graph

variable {V : Type} {g : Graph V}

/-! ## Single links -/

theorem report_eq_nil_iff {rule message : String} {broken : Bool} :
    report rule broken message = [] ↔ broken = false := by
  cases broken <;> simp [report]

theorem refersTo_iff {v : Value} {u : Use} : g.refersTo v u = true ↔
    ∃ d, g.ops.find? u.user = some d ∧ d.operands[u.index]? = some v := by
  unfold refersTo
  cases g.ops.find? u.user with
  | none => simp
  | some d => simp

theorem unlistedInParent_eq_nil_iff {o : Op} {d : OpData V} : g.unlistedInParent o d = [] ↔
    ∀ b, d.parent = some b → ∃ e, g.blocks.find? b = some e ∧ o ∈ e.ops := by
  unfold unlistedInParent
  cases d.parent with
  | none => simp
  | some b =>
      cases hblock : g.blocks.find? b with
      | none => simp [report_eq_nil_iff, hblock]
      | some e => simp [report_eq_nil_iff, hblock]

/-- The use list of an operand that does not exist is not looked at. -/
theorem unregisteredOperand_eq_nil_iff {o : Op} {d : OpData V} {v : Value} {i : Nat} :
    g.unregisteredOperand o d (v, i) = [] ↔
      ∀ e, g.values.find? v = some e → ⟨o, i⟩ ∈ e.uses := by
  unfold unregisteredOperand
  cases hvalue : g.values.find? v with
  | none => simp [report_eq_nil_iff]
  | some e => simp [report_eq_nil_iff]

theorem brokenSymbol_eq_nil_iff {name : String} {s : Op} : g.brokenSymbol (name, s) = [] ↔
    ∃ e, g.ops.find? s = some e ∧ e.hasTrait .symbol = true ∧ e.symbolName? = some name := by
  unfold brokenSymbol
  cases hop : g.ops.find? s with
  | none => simp
  | some e => simp [report_eq_nil_iff]

theorem flatMap_brokenSymbol_eq_nil_iff {t : Table String Op} :
    t.entries.flatMap g.brokenSymbol = [] ↔ ∀ name s, t.find? name = some s →
      ∃ e, g.ops.find? s = some e ∧ e.hasTrait .symbol = true ∧ e.symbolName? = some name := by
  rw [List.flatMap_eq_nil_iff]
  constructor
  · intro h name s hs
    exact brokenSymbol_eq_nil_iff.1 (h (name, s) ((t.mem_entries_iff name s).2 hs))
  · intro h entry hentry
    exact brokenSymbol_eq_nil_iff.2 (h entry.1 entry.2 ((t.mem_entries_iff _ _).1 hentry))

theorem decides_staleUses (v : Value) :
    Decides (g.staleUses v) (∃ e, g.values.find? v = some e ∧ g.UsesRefer v e.uses) := by
  intro failures h
  obtain ⟨e, he, h⟩ := bind_eq_ok_iff.1 h
  cases h
  have hfind := Table.demand_eq_ok_iff.1 he
  rw [List.flatMap_eq_nil_iff, Table.exists_find?_iff hfind]
  refine forall₂_congr fun u _ => ?_
  rw [report_eq_nil_iff, Bool.not_eq_false', refersTo_iff]

theorem decides_brokenArgument (b : Block) (v : Value) (i : Nat) :
    Decides (g.brokenArgument b (v, i)) (∃ e, g.values.find? v = some e ∧
      g.ValueConsistent v (.argument (some b) (some i)) e) := by
  intro failures h
  obtain ⟨e, he, h⟩ := bind_eq_ok_iff.1 h
  obtain ⟨stale, hstale, h⟩ := bind_eq_ok_iff.1 h
  cases h
  have hfind : g.values.find? v = some e := Table.demand_eq_ok_iff.1 he
  rw [List.append_eq_nil_iff, report_eq_nil_iff, bne_eq_false_iff_eq,
    decides_staleUses v stale hstale, Table.exists_find?_iff hfind, Table.exists_find?_iff hfind]
  exact ⟨fun h => ⟨h.1, h.2⟩, fun h => ⟨h.origin, h.uses⟩⟩

/-! ## The levels of the walk -/

section Levels

variable {visit : Op → Except Fault (List RuleFailure)} {Q : Op → Prop}

theorem decides_listedFailures (hvisit : ∀ o, Decides (visit o) (Q o)) (b : Block)
    (last : Option Op) (o : Op) :
    Decides (g.listedFailures visit b last o) ((∃ d, g.ops.find? o = some d ∧
      d.parent = some b ∧ (d.isTerminator = true → last = some o)) ∧ Q o) := by
  intro failures h
  obtain ⟨d, hd, h⟩ := bind_eq_ok_iff.1 h
  obtain ⟨inner, hinner, h⟩ := bind_eq_ok_iff.1 h
  cases h
  have hfind : g.ops.find? o = some d := Table.demand_eq_ok_iff.1 hd
  have hlast : (d.isTerminator && some o != last) = false ↔
      (d.isTerminator = true → last = some o) := by
    rw [Bool.and_eq_false_imp, bne_eq_false_iff_eq]
    exact imp_congr_right fun _ => eq_comm
  rw [List.append_eq_nil_iff, List.append_eq_nil_iff, report_eq_nil_iff, report_eq_nil_iff,
    bne_eq_false_iff_eq, hlast, hvisit o inner hinner, Table.exists_find?_iff hfind]

theorem decides_blockFailures (hvisit : ∀ o, Decides (visit o) (Q o)) (r : Region) (b : Block) :
    Decides (g.blockFailures visit r b) ((∃ d, g.blocks.find? b = some d ∧
      g.BlockConsistent r b d) ∧ ∀ o ∈ g.opsIn b, Q o) := by
  intro failures h
  obtain ⟨d, hd, h⟩ := bind_eq_ok_iff.1 h
  obtain ⟨args, hargs, h⟩ := bind_eq_ok_iff.1 h
  obtain ⟨ops, hops, h⟩ := bind_eq_ok_iff.1 h
  cases h
  have hfind : g.blocks.find? b = some d := Table.demand_eq_ok_iff.1 hd
  have hargs := flatten_mapM_eq_nil_iff
    (fun arg _ => decides_brokenArgument (g := g) b arg.1 arg.2) hargs
  have hops := flatten_mapM_eq_nil_iff
    (fun o _ => decides_listedFailures (g := g) hvisit b d.ops.back? o) hops
  rw [List.append_eq_nil_iff, List.append_eq_nil_iff, report_eq_nil_iff, bne_eq_false_iff_eq,
    hargs, hops, opsIn_eq hfind, Table.exists_find?_iff hfind]
  constructor
  · rintro ⟨⟨howner, hargs⟩, hops⟩
    refine ⟨⟨howner, fun i v hv => ?_, fun o ho => (hops o ho).1⟩, fun o ho => (hops o ho).2⟩
    exact hargs (v, i) (List.mem_zipIdx_iff_getElem?.2 hv)
  · rintro ⟨hb, hinner⟩
    refine ⟨⟨hb.owner, fun arg harg => ?_⟩, fun o ho => ⟨hb.ops o ho, hinner o ho⟩⟩
    exact hb.args arg.2 arg.1 (List.mem_zipIdx_iff_getElem?.1 harg)

/-- A region that does not exist is passed by: a rule of its operation reports it. -/
theorem decides_regionFailures (hvisit : ∀ o, Decides (visit o) (Q o)) (o : Op) (r : Region) :
    Decides (g.regionFailures visit o r) ((∀ e, g.regions.find? r = some e →
      g.RegionConsistent o r e) ∧ ∀ b ∈ g.blocksIn r, ∀ o' ∈ g.opsIn b, Q o') := by
  intro failures h
  unfold regionFailures at h
  cases hfind : g.regions.find? r with
  | none =>
      rw [hfind] at h
      cases h
      simp [blocksIn, hfind]
  | some e =>
      rw [hfind] at h
      obtain ⟨blocks, hblocks, h⟩ := bind_eq_ok_iff.1 h
      cases h
      have hblocks := flatten_mapM_eq_nil_iff
        (fun b _ => decides_blockFailures (g := g) hvisit r b) hblocks
      rw [List.append_eq_nil_iff, report_eq_nil_iff, bne_eq_false_iff_eq, hblocks,
        blocksIn_eq hfind]
      constructor
      · rintro ⟨hparent, hblocks⟩
        refine ⟨fun e' he' => ?_, fun b hb => (hblocks b hb).2⟩
        cases he'
        exact ⟨hparent, fun b hb => (hblocks b hb).1⟩
      · rintro ⟨hregion, hinner⟩
        have hr := hregion e rfl
        exact ⟨hr.parent, fun b hb => ⟨hr.blocks b hb, hinner b hb⟩⟩

end Levels

/-- What is within an operation is the operation, or within one that its regions lead to. -/
theorem within_op_iff {o o' : Op} : g.Within (.op o') (.op o) ↔ o' = o ∨
    ∃ r ∈ g.regionsOf o, ∃ b ∈ g.blocksIn r, ∃ o₁ ∈ g.opsIn b, g.Within (.op o') (.op o₁) := by
  constructor
  · intro h
    rcases ReflTransGen.cases_head h with heq | ⟨x, hx, h⟩
    · injection heq with heq
      exact Or.inl heq.symm
    · obtain ⟨r, rfl, hr⟩ := op_holds_iff.1 hx
      rcases ReflTransGen.cases_head h with heq | ⟨x, hx, h⟩
      · cases heq
      · obtain ⟨b, rfl, hb⟩ := region_holds_iff.1 hx
        rcases ReflTransGen.cases_head h with heq | ⟨x, hx, h⟩
        · cases heq
        · obtain ⟨o₁, rfl, ho⟩ := block_holds_iff.1 hx
          exact Or.inr ⟨r, hr, b, hb, o₁, ho, h⟩
  · rintro (rfl | ⟨r, hr, b, hb, o₁, ho, h⟩)
    · exact .refl
    · exact .head (.region hr) (.head (.block hb) (.head (.op ho) h))

section Walk

variable [OpVerifier V]

/-- An operation is consistent if the checks of one level of the walk say so together. -/
theorem consistent_iff {o : Op} {d : OpData V} : g.Consistent o d ↔
    (OpView.mk g o d).Obeys ∧ g.unlistedInParent o d = [] ∧
      (∀ slot ∈ d.operands.zipIdx, g.unregisteredOperand o d slot = []) ∧
      (∀ v ∈ d.results, ∃ e, g.values.find? v = some e ∧ g.UsesRefer v e.uses) ∧
      (∀ r ∈ d.regions, ∀ e, g.regions.find? r = some e → g.RegionConsistent o r e) ∧
      ∀ t, d.symbols = some t → t.entries.flatMap g.brokenSymbol = [] := by
  constructor
  · intro h
    refine ⟨⟨fun v hv => ?_, fun i v hv => ?_, h.regions_nodup, fun r hr => ?_, h.successors,
      fun b hb => ?_, h.traits, h.verifiers⟩, ?_, fun slot hslot => ?_, fun v hv => ?_,
      fun r hr e he => ?_, fun t ht => ?_⟩
    · obtain ⟨i, hi⟩ := List.mem_iff_getElem?.1 hv
      obtain ⟨e, he, -⟩ := h.operands i v hi
      exact Table.contains_iff.2 ⟨e, he⟩
    · obtain ⟨e, he, hvalue⟩ := h.results i v hv
      rw [origin?_eq he, hvalue.origin]
    · obtain ⟨e, he, hregion⟩ := h.regions r hr
      refine ⟨Table.contains_iff.2 ⟨e, he⟩, fun o' ho' => ?_⟩
      rw [holder?_eq he, hregion.parent] at ho'
      exact (Option.some.inj ho').symm
    · obtain ⟨⟨e, he, -⟩, hout⟩ := h.parent b hb
      exact ⟨Table.contains_iff.2 ⟨e, he⟩, hout⟩
    · exact unlistedInParent_eq_nil_iff.2 fun b hb => (h.parent b hb).1
    · refine unregisteredOperand_eq_nil_iff.2 fun e he => ?_
      obtain ⟨e', he', huse⟩ := h.operands slot.2 slot.1 (List.mem_zipIdx_iff_getElem?.1 hslot)
      cases he.symm.trans he'
      exact huse
    · obtain ⟨i, hi⟩ := List.mem_iff_getElem?.1 hv
      obtain ⟨e, he, hvalue⟩ := h.results i v hi
      exact ⟨e, he, hvalue.uses⟩
    · obtain ⟨e', he', hregion⟩ := h.regions r hr
      cases he.symm.trans he'
      exact hregion
    · exact flatMap_brokenSymbol_eq_nil_iff.2 fun name s hs => h.symbols t name s ht hs
  · rintro ⟨hrules, hlisted, hoperands, hresults, hregions, hsymbols⟩
    refine ⟨fun i v hv => ?_, fun i v hv => ?_, hrules.regions_nodup, fun r hr => ?_,
      hrules.successors, fun b hb => ⟨?_, (hrules.parent b hb).2⟩, hrules.traits,
      hrules.verifiers, fun t name s ht hs => ?_⟩
    · obtain ⟨e, he⟩ := Table.contains_iff.1 (hrules.operands v (List.mem_of_getElem? hv))
      refine ⟨e, he, ?_⟩
      exact unregisteredOperand_eq_nil_iff.1
        (hoperands (v, i) (List.mem_zipIdx_iff_getElem?.2 hv)) e he
    · obtain ⟨e, he, huses⟩ := hresults v (List.mem_of_getElem? hv)
      have horigin := hrules.results i v hv
      rw [origin?_eq he] at horigin
      exact ⟨e, he, Option.some.inj horigin, huses⟩
    · obtain ⟨e, he⟩ := Table.contains_iff.1 (hrules.regions r hr).1
      exact ⟨e, he, hregions r hr e he⟩
    · exact unlistedInParent_eq_nil_iff.1 hlisted b hb
    · exact flatMap_brokenSymbol_eq_nil_iff.1 (hsymbols t ht) name s hs

theorem decides_failuresWithin_succ {levels : Nat} {Q : Op → Prop}
    (hvisit : ∀ o, Decides (g.failuresWithin levels o) (Q o)) (o : Op) :
    Decides (g.failuresWithin (levels + 1) o) ((∃ d, g.ops.find? o = some d ∧ g.Consistent o d) ∧
      ∀ r ∈ g.regionsOf o, ∀ b ∈ g.blocksIn r, ∀ o' ∈ g.opsIn b, Q o') := by
  intro failures h
  obtain ⟨d, hd, h⟩ := bind_eq_ok_iff.1 h
  obtain ⟨rules, hrules, h⟩ := bind_eq_ok_iff.1 h
  obtain ⟨results, hresults, h⟩ := bind_eq_ok_iff.1 h
  obtain ⟨regions, hregions, h⟩ := bind_eq_ok_iff.1 h
  cases h
  have hfind : g.ops.find? o = some d := Table.demand_eq_ok_iff.1 hd
  have hrules := OpView.decides_failures rules hrules
  have hresults := flatten_mapM_eq_nil_iff (fun v _ => decides_staleUses (g := g) v) hresults
  have hregions := flatten_mapM_eq_nil_iff
    (fun r _ => decides_regionFailures (g := g) hvisit o r) hregions
  rw [List.append_eq_nil_iff, List.append_eq_nil_iff, List.append_eq_nil_iff,
    List.append_eq_nil_iff, List.append_eq_nil_iff, hrules, List.flatMap_eq_nil_iff, hresults,
    hregions, regionsOf_eq hfind, Table.exists_find?_iff hfind, consistent_iff]
  refine (and_congr_right fun _ => (?symbols :
    _ ↔ ∀ t, d.symbols = some t → t.entries.flatMap g.brokenSymbol = [])).trans ?_
  case symbols => cases d.symbols <;> simp
  constructor
  · rintro ⟨⟨⟨⟨⟨hrules, hlisted⟩, hoperands⟩, hresults⟩, hregions⟩, hsymbols⟩
    refine ⟨⟨hrules, hlisted, hoperands, hresults, ?_, hsymbols⟩, ?_⟩
    · exact fun r hr => (hregions r hr).1
    · exact fun r hr => (hregions r hr).2
  · rintro ⟨⟨hrules, hlisted, hoperands, hresults, hregions, hsymbols⟩, hinner⟩
    exact ⟨⟨⟨⟨⟨hrules, hlisted⟩, hoperands⟩, hresults⟩,
      fun r hr => ⟨hregions r hr, hinner r hr⟩⟩, hsymbols⟩

/-- At every depth the walk decides whether what it reaches is consistent. -/
theorem decides_failuresWithin (levels : Nat) (o : Op) :
    Decides (g.failuresWithin levels o)
      (∀ o', g.Within (.op o') (.op o) → ∃ d, g.ops.find? o' = some d ∧ g.Consistent o' d) := by
  induction levels generalizing o with
  | zero =>
      intro failures h
      cases h
  | succ levels ih =>
      intro failures h
      rw [decides_failuresWithin_succ ih o failures h]
      constructor
      · rintro ⟨hop, hinner⟩ o' ho'
        rcases within_op_iff.1 ho' with rfl | ⟨r, hr, b, hb, o₁, ho₁, hin⟩
        · exact hop
        · exact hinner r hr b hb o₁ ho₁ o' hin
      · intro hall
        refine ⟨hall o .refl, fun r hr b hb o₁ ho₁ o' hin => ?_⟩
        exact hall o' (within_op_iff.2 (Or.inr ⟨r, hr, b, hb, o₁, ho₁, hin⟩))

/-- Verification that ends passes an operation just if everything within it is consistent. -/
theorem verify_eq_none_iff {o : Op} {outcome : Option ValidationError}
    (h : g.verify o = .ok outcome) : outcome = none ↔
      ∀ o', g.Within (.op o') (.op o) → ∃ d, g.ops.find? o' = some d ∧ g.Consistent o' d := by
  obtain ⟨failures, hfailures, h⟩ := bind_eq_ok_iff.1 h
  cases h
  rw [ValidationError.ofFailures_eq_none_iff]
  exact decides_failuresWithin _ o failures hfailures

end Walk

/-- An operation in a block of another, with a parent link that may be missing. -/
def nestedOp (parent : Option Block) : Graph DialectVerifier where
  ops := (Table.empty.insert ⟨1⟩ (bare [⟨1⟩] none)).insert ⟨2⟩ (bare [] parent)
  blocks := Table.empty.insert ⟨1⟩
    { ops := ⟨[⟨2⟩], List.pairwise_singleton _ _⟩, owner := some ⟨1⟩ }
  regions := Table.empty.insert ⟨1⟩
    { blocks := ⟨[⟨1⟩], List.pairwise_singleton _ _⟩, parent := some ⟨1⟩ }
where
  bare (regions : List Region) (parent : Option Block) : OpData DialectVerifier :=
    { name := "test.func", operands := [], results := [], attrs := .empty, regions
      successors := [], parent, traits := [], verifiers := [], symbols := none }

/-- With the link everything is consistent, and without it something is not. -/
theorem verify_eq_none_iff_nestedOp :
    (∀ o', (nestedOp (some ⟨1⟩)).Within (.op o') (.op ⟨1⟩) →
      ∃ d, (nestedOp (some ⟨1⟩)).ops.find? o' = some d ∧
        (nestedOp (some ⟨1⟩)).Consistent o' d) ∧
    ¬ ∀ o', (nestedOp none).Within (.op o') (.op ⟨1⟩) →
      ∃ d, (nestedOp none).ops.find? o' = some d ∧ (nestedOp none).Consistent o' d := by
  have hends : ∀ {parent passes},
      ((nestedOp parent).verify ⟨1⟩).toOption.map Option.isNone = some passes →
        ∃ outcome, (nestedOp parent).verify ⟨1⟩ = .ok outcome ∧ outcome.isNone = passes := by
    intro parent passes h
    cases hverify : (nestedOp parent).verify ⟨1⟩ with
    | error c =>
        rw [hverify] at h
        cases h
    | ok outcome =>
        rw [hverify] at h
        exact ⟨outcome, rfl, Option.some.inj h⟩
  obtain ⟨linked, hlinked, hpasses⟩ := @hends (some ⟨1⟩) true (by decide +kernel)
  obtain ⟨cut, hcut, hfails⟩ := @hends none false (by decide +kernel)
  refine ⟨(verify_eq_none_iff hlinked).1 (Option.isNone_iff_eq_none.1 hpasses), fun hall => ?_⟩
  rw [(verify_eq_none_iff hcut).2 hall] at hfails
  cases hfails

end Graph

end RegionIR
