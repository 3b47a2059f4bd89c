import RegionIR.Proofs.Edit.Placement
import RegionIR.Proofs.Graph.Cut

/-!
# Erasure

An erasure asks first and changes afterwards.  What it learns from the walk
down and from the two searches for outside uses is just what makes a subtree
one that can be cut out.  Its changes then go through tables, lists and
entries one by one; taken together they are the cut.

The use lists are the delicate part: the edges of the subtree are dropped one
at a time, and an edge that is missing from a list would go unnoticed.  Since
lists hold exactly the edges of their value, and each once, what is left are
the edges from outside.

Every look-up on the way is about something that the walk down has collected,
or that such an entity produces.  All of it is in the graph until the last
step, which drops it.

## Main results

* `Graph.Collected` — what is nested in an operation, and the values produced there.
* `Graph.usedOutside_cases`, `Graph.branchedOutside_cases` — what the searches establish.
* `Graph.withoutEntries_eq_prune` — all changes taken together.
* `ends_eraseOp` — the three ends of an erasure.
* `atomicFrom_eraseOp`
* `faultless_eraseOp` — the erasure of an operation that is there meets no fault.
* `Graph.Loose`, `run_eraseOp_eq_done_iff` — where an erasure is done.
-/

namespace RegionIR

variable {V : Type}

namespace Graph

variable {g : Graph V} {t : Subtree}

/-! ## What is learnt before anything changes -/

/-- A subtree is all that is nested in an operation, the operation included, and some values are
the results and arguments of the subtree. -/
structure Collected (g : Graph V) (o : Op) (t : Subtree) (produced : List Value) : Prop where
  contains : ∀ x, t.Contains x ↔ g.Within x (.op o)
  mem : ∀ v, v ∈ produced ↔
    (∃ o' ∈ t.ops, v ∈ g.resultsOf o') ∨ ∃ b ∈ t.blocks, v ∈ g.argsOf b

/-- A value has a use by an operation that is not in the subtree. -/
def UsedOutside (g : Graph V) (t : Subtree) (v : Value) (user : Op) : Prop :=
  user ∉ t.ops ∧ ∃ d, g.values.find? v = some d ∧ ∃ u ∈ d.uses, u.user = user

/-- A block of the subtree is a successor of an operation that is not in it. -/
def BranchedOutside (g : Graph V) (t : Subtree) (b : Block) (user : Op) : Prop :=
  user ∉ t.ops ∧ b ∈ t.blocks ∧ ∃ d, g.ops.find? user = some d ∧ b ∈ d.successors

/-- The values that a collection produces are the results and arguments of its entries. -/
theorem mem_producedBy {produced : List Value} (h : g.producedBy t = .ok produced) (v : Value) :
    v ∈ produced ↔ (∃ o ∈ t.ops, v ∈ g.resultsOf o) ∨ ∃ b ∈ t.blocks, v ∈ g.argsOf b := by
  obtain ⟨results, hresults, h⟩ := bind_eq_ok_iff.1 h
  obtain ⟨args, hargs, h⟩ := bind_eq_ok_iff.1 h
  have heq : results.flatten ++ args.flatten = produced := Except.ok.inj h
  have hresult : ∀ o l, (g.op o >>= fun d => pure d.results) = .ok l → l = g.resultsOf o := by
    intro o l hl
    obtain ⟨d, hd, hl⟩ := bind_eq_ok_iff.1 hl
    rw [resultsOf_eq (Table.demand_eq_ok_iff.1 hd)]
    exact (Except.ok.inj hl).symm
  have harg : ∀ b l, (g.block b >>= fun d => pure d.args) = .ok l → l = g.argsOf b := by
    intro b l hl
    obtain ⟨d, hd, hl⟩ := bind_eq_ok_iff.1 hl
    rw [argsOf_eq (Table.demand_eq_ok_iff.1 hd)]
    exact (Except.ok.inj hl).symm
  rw [← heq, eq_map_of_mapM_eq_ok hresult hresults, eq_map_of_mapM_eq_ok harg hargs,
    List.mem_append, ← List.flatMap_def, ← List.flatMap_def, List.mem_flatMap, List.mem_flatMap]

/-- A walk starts at an operation of the graph. -/
theorem contains_of_subtree {o : Op} (ht : g.subtree o = .ok t) : g.ops.contains o = true := by
  obtain ⟨d, hd, -⟩ := bind_eq_ok_iff.1 ht
  exact Table.contains_iff.2 ⟨d, Table.demand_eq_ok_iff.1 hd⟩

theorem collected_of_walk (howned : g.Owned) (hacyclic : g.Acyclic) {o : Op}
    {produced : List Value} (ht : g.subtree o = .ok t) (hproduced : g.producedBy t = .ok produced) :
    g.Collected o t produced := by
  obtain ⟨t', ht', hcontains⟩ := subtree_eq_ok howned hacyclic (contains_of_subtree ht)
  cases ht.symm.trans ht'
  exact ⟨hcontains, mem_producedBy hproduced⟩

/-- The search for uses stops at one from outside, or there is none. -/
theorem usedOutside_cases {values : List Value} {found : Option EditError}
    (h : g.outsideUse? t.ops values = .ok found) :
    (found = none ∧ ∀ v ∈ values, ∀ user, ¬ g.UsedOutside t v user) ∨
      ∃ v ∈ values, ∃ user, g.UsedOutside t v user ∧ found = some (.inUse v user) := by
  induction values with
  | nil => exact Or.inl ⟨(Except.ok.inj h).symm, fun _ hv => nomatch hv⟩
  | cons w rest ih =>
      unfold outsideUse? at h
      obtain ⟨d, hd, h⟩ := bind_eq_ok_iff.1 h
      have hfind := Table.demand_eq_ok_iff.1 hd
      cases hsearch : d.uses.find? fun u => decide (u.user ∉ t.ops) with
      | some u =>
          rw [hsearch] at h
          have hout : u.user ∉ t.ops := by simpa using List.find?_some hsearch
          have hused : g.UsedOutside t w u.user :=
            ⟨hout, d, hfind, u, List.mem_of_find?_eq_some hsearch, rfl⟩
          exact Or.inr ⟨w, List.mem_cons_self, u.user, hused, (Except.ok.inj h).symm⟩
      | none =>
          rw [hsearch] at h
          have hunused : ∀ user, ¬ g.UsedOutside t w user := by
            rintro user ⟨hout, d', hd', u, hu, rfl⟩
            cases hfind.symm.trans hd'
            exact absurd (decide_eq_true hout) (List.find?_eq_none.1 hsearch u hu)
          rcases ih h with ⟨hnone, hrest⟩ | ⟨v, hv, hused⟩
          · exact Or.inl ⟨hnone, List.forall_mem_cons.2 ⟨hunused, hrest⟩⟩
          · exact Or.inr ⟨v, List.mem_cons_of_mem w hv, hused⟩

/-- The search for branches stops at one from outside, or there is none. -/
theorem branchedOutside_cases (g : Graph V) (t : Subtree) :
    (g.outsideBranch? t = none ∧ ∀ b user, ¬ g.BranchedOutside t b user) ∨
      ∃ b user, g.BranchedOutside t b user ∧ g.outsideBranch? t = some (.blockInUse b user) := by
  cases h : g.outsideBranch? t with
  | none =>
      refine Or.inl ⟨rfl, ?_⟩
      rintro b user ⟨hout, hin, d, hd, hb⟩
      unfold outsideBranch? at h
      have hentry := List.findSome?_eq_none_iff.1 h (user, d) ((g.ops.mem_entries_iff user d).2 hd)
      rw [if_neg hout, Option.map_eq_none_iff, List.find?_eq_none] at hentry
      exact absurd (decide_eq_true hin) (hentry b hb)
  | some e =>
      unfold outsideBranch? at h
      obtain ⟨⟨user, d⟩, hentry, h⟩ := List.exists_of_findSome?_eq_some h
      have hd := (g.ops.mem_entries_iff user d).1 hentry
      split at h
      · cases h
      · rename_i hout
        obtain ⟨b, hb, rfl⟩ := Option.map_eq_some_iff.1 h
        have hin : b ∈ t.blocks := by simpa using List.find?_some hb
        exact Or.inr ⟨b, user, ⟨hout, hin, d, hd, List.mem_of_find?_eq_some hb⟩, rfl⟩

/-- Where nothing outside uses or reaches it, the subtree can be cut out. -/
theorem Collected.cuttable {o : Op} {produced : List Value} (h : g.Collected o t produced)
    (huses : ∀ v ∈ produced, ∀ user, ¬ g.UsedOutside t v user)
    (hbranches : ∀ b user, ¬ g.BranchedOutside t b user) : g.Cuttable o t produced where
  hangs := hangs_of_contains h.contains
  mem := h.mem
  uses := by
    intro v l hv hl u hu
    obtain ⟨d, hd, rfl⟩ := Option.map_eq_some_iff.1 hl
    exact Decidable.byContradiction fun hout => huses v hv u.user ⟨hout, d, hd, u, hu, rfl⟩
  branches := by
    intro user d b hd hout hb hin
    exact hbranches b user ⟨hout, hin, d, hd, hb⟩

/-! ## Dropping the edges of operations -/

/-- The slots of an operation, each with the value in it. -/
def slotsBy (g : Graph V) (o : Op) : List (Value × Use) :=
  ((g.ops.find? o).map fun d => d.operands.zipIdx.map fun a => (a.1, ⟨o, a.2⟩)).getD []

/-- The graph with some edges dropped from the use lists. -/
def dropEdges (g : Graph V) (edges : List (Value × Use)) : Graph V :=
  g.modifyValues edges Prod.fst fun a e => e.dropUse a.2

theorem mem_slotsBy {o : Op} {v : Value} {u : Use} :
    (v, u) ∈ g.slotsBy o ↔ u.user = o ∧ g.slot? u = some v := by
  unfold slotsBy
  cases hd : g.ops.find? o with
  | none =>
      constructor
      · intro h
        cases h
      · rintro ⟨rfl, h⟩
        rw [slot?_eq_none hd] at h
        cases h
  | some d =>
      rw [Option.map_some, Option.getD_some, List.mem_map]
      constructor
      · rintro ⟨⟨w, i⟩, hmem, heq⟩
        cases heq
        exact ⟨rfl, (slot?_eq hd i).trans (List.mk_mem_zipIdx_iff_getElem?.1 hmem)⟩
      · rintro ⟨rfl, hslot⟩
        have hget : d.operands[u.index]? = some v := (slot?_eq hd u.index).symm.trans hslot
        exact ⟨(v, u.index), List.mk_mem_zipIdx_iff_getElem?.2 hget, rfl⟩

theorem withoutUsesBy_eq {o : Op} {d : OpData V} (hd : g.ops.find? o = some d) :
    g.withoutUsesBy o d = g.dropEdges (g.slotsBy o) := by
  unfold withoutUsesBy dropEdges modifyValues slotsBy
  rw [hd, Option.map_some, Option.getD_some, List.foldl_map]

theorem dropEdges_append (edges edges' : List (Value × Use)) :
    g.dropEdges (edges ++ edges') = (g.dropEdges edges).dropEdges edges' := by
  unfold dropEdges modifyValues
  rw [List.foldl_append]

/-- Dropping edges from a list without repetition leaves the others. -/
private theorem foldl_dropUse {d : ValueData} (hnodup : d.uses.Nodup)
    (edges : List (Value × Use)) : edges.foldl (fun e a => e.dropUse a.2) d =
      { d with uses := d.uses.filter fun u => decide (u ∉ edges.map Prod.snd) } := by
  induction edges generalizing d with
  | nil =>
      have hall : d.uses.filter (fun u => decide (u ∉ ([] : List (Value × Use)).map Prod.snd)) =
          d.uses := List.filter_eq_self.2 fun u _ => by simp
      rw [hall, List.foldl_nil]
  | cons a rest ih =>
      rw [List.foldl_cons, ih (hnodup.erase a.2), ValueData.dropUse]
      congr 1
      dsimp only
      rw [hnodup.erase_eq_filter, List.filter_filter]
      apply List.filter_congr
      intro u _
      rw [List.map_cons]
      by_cases hu : u = a.2
      · simp [hu]
      · by_cases hrest : u ∈ rest.map Prod.snd
        · simp [hrest]
        · simp [hu, hrest]

/-- Dropping all edges that some operations have leaves the edges of the other users. -/
theorem find?_dropEdges_flatMap (h : g.UsesMatch) (ops : List Op) (v : Value) :
    (g.dropEdges (ops.flatMap g.slotsBy)).values.find? v = (g.values.find? v).map fun d =>
      { d with uses := d.uses.filter fun u => decide (u.user ∉ ops) } := by
  unfold dropEdges modifyValues
  rw [Table.find?_foldl_modify]
  cases hd : g.values.find? v with
  | none => rfl
  | some d =>
      have huses := uses?_eq hd
      rw [Option.map_some, Option.map_some, foldl_dropUse (h.nodup huses)]
      congr 2
      apply List.filter_congr
      intro u hu
      have hslot := (h.mem huses).1 hu
      have hiff : u ∈ ((ops.flatMap g.slotsBy).filter fun a => a.1 = v).map Prod.snd ↔
          u.user ∈ ops := by
        rw [List.mem_map]
        constructor
        · rintro ⟨⟨w, u'⟩, hmem, rfl⟩
          obtain ⟨o, ho, hmem⟩ := List.mem_flatMap.1 (List.mem_filter.1 hmem).1
          exact (mem_slotsBy.1 hmem).1 ▸ ho
        · intro ho
          refine ⟨(v, u), List.mem_filter.2 ⟨?_, by simp⟩, rfl⟩
          exact List.mem_flatMap.2 ⟨u.user, ho, mem_slotsBy.2 ⟨rfl, hslot⟩⟩
      simp only [hiff]

/-! ## All changes taken together -/

theorem contains_withoutSymbols (g : Graph V) (inside : List Op) (o : Op) :
    (g.withoutSymbols inside).ops.contains o = g.ops.contains o := by
  rw [Table.contains, withoutSymbols, Table.find?_mapValues, Option.isSome_map, Table.contains]

theorem parent?_withoutSymbols (g : Graph V) (inside : List Op) (o : Op) :
    (g.withoutSymbols inside).parent? o = g.parent? o := by
  rw [parent?, withoutSymbols, Table.find?_mapValues, Option.bind_map, parent?]
  congr 1
  funext d
  show (if _ then d else _).parent = d.parent
  split <;> rfl

/-- The graph after the symbols of a subtree are dropped and its root has left its block. -/
def released (g : Graph V) (o : Op) (t : Subtree) : Graph V :=
  match g.parent? o with
  | none => g.withoutSymbols t.ops
  | some b => (g.withoutSymbols t.ops).takeOp b o

section Released

variable (g : Graph V) (o : Op) (t : Subtree)

theorem values_released : (g.released o t).values = g.values := by
  unfold released
  cases g.parent? o <;> rfl

theorem regions_released : (g.released o t).regions = g.regions := by
  unfold released
  cases g.parent? o <;> rfl

theorem find?_blocks_released (b : Block) :
    (g.released o t).blocks.find? b = (g.blocks.find? b).map fun d =>
      if g.parent? o = some b then { d with ops := d.ops.remove o } else d := by
  unfold released
  cases hparent : g.parent? o with
  | none =>
      show g.blocks.find? b = _
      simp
  | some b' =>
      show (g.blocks.modify b' _).find? b = _
      rw [Table.find?_modify]
      by_cases hb : b = b'
      · simp [hb]
      · simp [hb, Ne.symm hb]

theorem find?_ops_released {o' : Op} (hne : o' ≠ o) :
    (g.released o t).ops.find? o' = (g.withoutSymbols t.ops).ops.find? o' := by
  unfold released
  cases g.parent? o with
  | none => rfl
  | some b =>
      show ((g.withoutSymbols t.ops).ops.modify o _).find? o' = _
      rw [Table.find?_modify, if_neg hne]

theorem slot?_released (u : Use) : (g.released o t).slot? u = g.slot? u := by
  have hsymbols : (g.withoutSymbols t.ops).slot? u = g.slot? u := by
    unfold slot? withoutSymbols
    rw [Table.find?_mapValues, Option.bind_map]
    congr 1
    funext d
    show (if _ then d else _).operands[u.index]? = d.operands[u.index]?
    split <;> rfl
  unfold released
  cases g.parent? o with
  | none => exact hsymbols
  | some b => exact (slot?_takeOp _ b o u).trans hsymbols

end Released

/-- Dropping symbols, edges and entries one after the other is the cut. -/
theorem withoutEntries_eq_prune (h : g.UsesMatch) {o : Op} (ho : o ∈ t.ops)
    (produced : List Value) :
    ((g.released o t).dropEdges (t.ops.flatMap (g.released o t).slotsBy)).withoutEntries t
      produced = g.prune o t produced := by
  have huses : (g.released o t).UsesMatch :=
    h.congr (slot?_released g o t) fun v => by rw [uses?, values_released, uses?]
  have hvalues : ((g.released o t).dropEdges (t.ops.flatMap (g.released o t).slotsBy)).values =
      g.values.mapValues fun _ d =>
        { d with uses := d.uses.filter fun u => decide (u.user ∉ t.ops) } := by
    apply Table.ext_find?
    intro v
    rw [find?_dropEdges_flatMap huses, values_released, Table.find?_mapValues]
  have hops : (g.released o t).ops.filterKeys (fun o' => decide (o' ∉ t.ops)) =
      (g.withoutSymbols t.ops).ops.filterKeys fun o' => decide (o' ∉ t.ops) := by
    apply Table.ext_find?
    intro o'
    rw [Table.find?_filterKeys, Table.find?_filterKeys]
    by_cases hin : o' ∈ t.ops
    · simp [hin]
    · have hne : o' ≠ o := fun heq => hin (heq ▸ ho)
      rw [find?_ops_released g o t hne]
  have hblocks : (g.released o t).blocks = g.blocks.mapValues fun b d =>
      if g.parent? o = some b then { d with ops := d.ops.remove o } else d := by
    apply Table.ext_find?
    intro b
    rw [find?_blocks_released, Table.find?_mapValues]
  unfold withoutEntries prune
  rw [hvalues, ← hops, ← hblocks, ← regions_released g o t]
  rfl

end Graph

namespace Edit

open RegionIR.Action

variable {s : Store V} {done : Unit → Store V → Prop} {refused : EditError → Store V → Prop}

/-! ## The edit -/

/-- The loop over the operations of a subtree drops their edges. -/
theorem ends_forEach_withoutUsesBy {ops : List Op}
    (h : done () ⟨s.graph.dropEdges (ops.flatMap s.graph.slotsBy), s.next⟩) :
    ((forEach ops fun o => do
        let d ← ask fun g => g.op o
        modifyGraph fun g => g.withoutUsesBy o d : Edit V Unit).run s).Ends done refused := by
  induction ops generalizing s with
  | nil => exact h
  | cons o rest ih =>
      rw [forEach_cons, ends_bind, ends_bind, ends_ask]
      intro d hd
      rw [ends_modifyGraph, Graph.withoutUsesBy_eq (Table.demand_eq_ok_iff.1 hd)]
      rw [List.flatMap_cons, Graph.dropEdges_append] at h
      exact ih h

/-- An erasure is refused in favour of a use from outside, or else of a branch from outside, and
otherwise it cuts the subtree out. -/
theorem ends_eraseOp (hs : s.Sound) {o : Op}
    (hinUse : ∀ t produced, s.graph.subtree o = .ok t → s.graph.producedBy t = .ok produced →
      ∀ v ∈ produced, ∀ user, s.graph.UsedOutside t v user → refused (.inUse v user) s)
    (hblockInUse : ∀ t produced, s.graph.subtree o = .ok t →
      s.graph.producedBy t = .ok produced →
        (∀ v ∈ produced, ∀ user, ¬ s.graph.UsedOutside t v user) →
          ∀ b user, s.graph.BranchedOutside t b user → refused (.blockInUse b user) s)
    (hdone : ∀ t produced, s.graph.subtree o = .ok t → s.graph.producedBy t = .ok produced →
      (∀ v ∈ produced, ∀ user, ¬ s.graph.UsedOutside t v user) →
        (∀ b user, ¬ s.graph.BranchedOutside t b user) →
          done () ⟨s.graph.prune o t produced, s.next⟩) :
    ((eraseOp o).run s).Ends done refused := by
  rw [eraseOp, ends_bind, ends_ask]
  intro t ht
  rw [ends_bind, ends_ask]
  intro produced hproduced
  rw [ends_bind, ends_ask]
  intro outside houtside
  rcases Graph.usedOutside_cases houtside with ⟨rfl, hunused⟩ | ⟨v, hv, user, hused, rfl⟩
  case inr => exact hinUse t produced ht hproduced v hv user hused
  rw [refuseIf_none, ends_bind, ends_pure, ends_bind, ends_graph]
  rcases Graph.branchedOutside_cases s.graph t with
    ⟨hnone, hunbranched⟩ | ⟨b, user, hbranched, hsome⟩
  case inr =>
    rw [hsome]
    exact hblockInUse t produced ht hproduced hunused b user hbranched
  rw [hnone, refuseIf_none, ends_bind, ends_pure, ends_bind, ends_modifyGraph, ends_bind, ends_ask]
  intro d hd
  have hcollected := Graph.collected_of_walk hs.owned hs.acyclic ht hproduced
  have hroot : o ∈ t.ops := (Graph.hangs_of_contains hcollected.contains).root
  have hplace : s.graph.parent? o = d.parent :=
    (Graph.parent?_withoutSymbols _ t.ops o).symm.trans
      (Graph.parent?_eq (Table.demand_eq_ok_iff.1 hd))
  have hrest : ((do
      forEach t.ops fun o => do
        let d ← ask fun g => g.op o
        modifyGraph fun g => g.withoutUsesBy o d
      modifyGraph fun g => g.withoutEntries t produced : Edit V Unit).run
        ⟨s.graph.released o t, s.next⟩).Ends done refused := by
    rw [ends_bind]
    apply ends_forEach_withoutUsesBy
    rw [ends_modifyGraph, Graph.withoutEntries_eq_prune hs.uses hroot]
    exact hdone t produced ht hproduced hunused hunbranched
  unfold Graph.released at hrest
  rw [hplace] at hrest
  cases hcase : d.parent with
  | none =>
      rw [hcase] at hrest
      exact hrest
  | some b =>
      rw [hcase] at hrest
      rw [ends_bind, ends_detachOp]
      exact fun _ _ => hrest

theorem atomicFrom_eraseOp (hs : s.Sound) (o : Op) : AtomicFrom (eraseOp o) s := by
  refine ends_eraseOp hs (fun _ _ _ _ _ _ _ _ => .refl s) (fun _ _ _ _ _ _ _ _ => .refl s)
    fun t produced ht hproduced hunused hunbranched => ?_
  have hcollected := Graph.collected_of_walk hs.owned hs.acyclic ht hproduced
  exact Store.Leads.change (.refl s) (.prune (hcollected.cuttable hunused hunbranched))

end Edit

/-! ## No fault on the way -/

namespace Graph

variable {g : Graph V} {t : Subtree}

theorem exists_producedBy (hops : ∀ o ∈ t.ops, g.ops.contains o = true)
    (hblocks : ∀ b ∈ t.blocks, g.blocks.contains b = true) :
    ∃ produced, g.producedBy t = .ok produced := by
  have hresult : ∀ o ∈ t.ops, ∃ l, (do return (← g.op o).results : Except Fault (List Value)) =
      .ok l ∧ True := by
    intro o ho
    obtain ⟨d, hd⟩ := Table.contains_iff.1 (hops o ho)
    refine ⟨d.results, ?_, trivial⟩
    rw [show g.op o = .ok d from Table.demand_eq_ok_iff.2 hd]
    rfl
  have harg : ∀ b ∈ t.blocks, ∃ l, (do return (← g.block b).args : Except Fault (List Value)) =
      .ok l ∧ True := by
    intro b hb
    obtain ⟨d, hd⟩ := Table.contains_iff.1 (hblocks b hb)
    refine ⟨d.args, ?_, trivial⟩
    rw [show g.block b = .ok d from Table.demand_eq_ok_iff.2 hd]
    rfl
  obtain ⟨results, hresults, -⟩ := mapM_eq_ok hresult
  obtain ⟨args, hargs, -⟩ := mapM_eq_ok harg
  refine ⟨results.flatten ++ args.flatten, ?_⟩
  unfold producedBy
  rw [hresults, ok_bind, hargs]
  rfl

/-- An operation that is there has a subtree, and the subtree has its values. -/
theorem Sound.exists_producedBy_subtree {n : NextHandles} (hs : g.Sound n) {o : Op}
    (ho : g.ops.contains o = true) :
    ∃ t produced, g.subtree o = .ok t ∧ g.producedBy t = .ok produced := by
  obtain ⟨t, ht, hcontains⟩ := subtree_eq_ok hs.owned hs.acyclic ho
  have hhangs := hangs_of_contains hcontains
  obtain ⟨produced, hproduced⟩ := exists_producedBy
    (fun o' ho' => hs.owned.op_of_hangs hhangs ho ho')
    fun b hb => hs.owned.block_of_hangs hhangs hb
  exact ⟨t, produced, ht, hproduced⟩

theorem exists_outsideUse? {values : List Value}
    (hlive : ∀ v ∈ values, g.values.contains v = true) (inside : List Op) :
    ∃ outside, g.outsideUse? inside values = .ok outside := by
  induction values with
  | nil => exact ⟨none, rfl⟩
  | cons v rest ih =>
      obtain ⟨d, hd⟩ := Table.contains_iff.1 (hlive v List.mem_cons_self)
      unfold outsideUse?
      rw [show g.value v = .ok d from Table.demand_eq_ok_iff.2 hd, ok_bind]
      cases d.uses.find? fun u => decide (u.user ∉ inside) with
      | some u => exact ⟨some (.inUse v u.user), rfl⟩
      | none => exact ih fun v' hv' => hlive v' (List.mem_cons_of_mem v hv')

end Graph

namespace Edit

open RegionIR.Action

variable {s : Store V}

/-- The loop over the operations of a subtree changes no operation. -/
theorem faultless_forEach_withoutUsesBy {ops : List Op}
    (hops : ∀ o ∈ ops, s.graph.ops.contains o = true) :
    ((forEach ops fun o => do
        let d ← ask fun g => g.op o
        modifyGraph fun g => g.withoutUsesBy o d : Edit V Unit).run s).Faultless := by
  refine faultless_forEach_of_invariant
    (I := fun s' => ∀ o ∈ ops, s'.graph.ops.contains o = true) (fun o ho s' hs' => ?_) hops
  obtain ⟨d, hd⟩ := Table.contains_iff.1 (hs' o ho)
  rw [faultless_ask_bind (Table.demand_eq_ok_iff.2 hd), ends_bind, ends_ask]
  exact ⟨trivial, fun _ _ => hs'⟩

/-- The operations of a subtree are there until the last step takes them out. -/
theorem faultless_forget {t : Subtree} {produced : List Value}
    (hops : ∀ o ∈ t.ops, s.graph.ops.contains o = true) : ((do
      forEach t.ops fun o => do
        let d ← ask fun g => g.op o
        modifyGraph fun g => g.withoutUsesBy o d
      modifyGraph fun g => g.withoutEntries t produced : Edit V Unit).run s).Faultless := by
  rw [faultless_bind]
  refine ⟨faultless_forEach_withoutUsesBy hops, ?_⟩
  simp

theorem faultless_eraseOp (hs : s.Sound) {o : Op} (ho : s.graph.ops.contains o = true) :
    ((eraseOp o).run s).Faultless := by
  obtain ⟨t, produced, ht, hproduced⟩ := hs.exists_producedBy_subtree ho
  have hcollected := Graph.collected_of_walk hs.owned hs.acyclic ht hproduced
  have hhangs := Graph.hangs_of_contains hcollected.contains
  have hops : ∀ o' ∈ t.ops, s.graph.ops.contains o' = true :=
    fun o' ho' => hs.owned.op_of_hangs hhangs ho ho'
  have hvalues : ∀ v ∈ produced, s.graph.values.contains v = true := by
    intro v hv
    rcases (hcollected.mem v).1 hv with ⟨o', -, hresult⟩ | ⟨b, -, harg⟩
    · exact hs.produced.live_of_mem_resultsOf hresult
    · exact hs.produced.live_of_mem_argsOf harg
  obtain ⟨outside, houtside⟩ := Graph.exists_outsideUse? hvalues t.ops
  have hkept : ∀ o' ∈ t.ops, (s.graph.withoutSymbols t.ops).ops.contains o' = true :=
    fun o' ho' => (Graph.contains_withoutSymbols s.graph t.ops o').trans (hops o' ho')
  have hroot := hkept o hhangs.root
  obtain ⟨d, hd⟩ := Table.contains_iff.1 hroot
  rw [eraseOp, faultless_ask_bind ht, faultless_ask_bind hproduced, faultless_ask_bind houtside]
  rw [faultless_bind, ends_refuseIf]
  refine ⟨(faultless_refuseIf _).2 trivial, fun _ => ?_, fun _ _ => trivial⟩
  rw [faultless_bind, ends_graph, faultless_bind, ends_refuseIf]
  refine ⟨trivial, (faultless_refuseIf _).2 trivial, fun _ => ?_, fun _ _ => trivial⟩
  rw [faultless_bind, ends_modifyGraph, faultless_ask_bind (Table.demand_eq_ok_iff.2 hd)]
  refine ⟨trivial, ?_⟩
  cases hcase : d.parent with
  | none => exact faultless_forget hkept
  | some b =>
      have hplace : s.graph.parent? o = some b := by
        rw [← Graph.parent?_withoutSymbols s.graph t.ops, Graph.parent?_eq hd, hcase]
      dsimp only
      rw [faultless_bind, ends_detachOp]
      refine ⟨faultless_detachOp (hs.owned.block_of_parent? hplace) hroot, fun _ _ => ?_⟩
      exact faultless_forget fun o' ho' => (Table.contains_modify _ o o' _).trans (hkept o' ho')

end Edit

/-! ## Where an erasure is done -/

namespace Graph

variable {g : Graph V} {o : Op} {t t' : Subtree} {produced produced' : List Value}

/-- Nothing outside a subtree uses a value that it produces, or branches to a block of it. -/
structure Loose (g : Graph V) (t : Subtree) (produced : List Value) : Prop where
  unused : ∀ v ∈ produced, ∀ user, ¬ g.UsedOutside t v user
  unbranched : ∀ b user, ¬ g.BranchedOutside t b user

/-- Two collections of one subtree differ in their order at most. -/
theorem Collected.contains_iff (h : g.Collected o t produced) (h' : g.Collected o t' produced')
    (x : Node) : t.Contains x ↔ t'.Contains x := by
  rw [h.contains, h'.contains]

theorem Collected.mem_iff (h : g.Collected o t produced) (h' : g.Collected o t' produced')
    (v : Value) : v ∈ produced ↔ v ∈ produced' := by
  have hops : ∀ o', o' ∈ t.ops ↔ o' ∈ t'.ops := fun o' => h.contains_iff h' (.op o')
  have hblocks : ∀ b, b ∈ t.blocks ↔ b ∈ t'.blocks := fun b => h.contains_iff h' (.block b)
  rw [h.mem, h'.mem]
  simp only [hops, hblocks]

theorem Collected.loose_of (h : g.Collected o t produced) (h' : g.Collected o t' produced')
    (hloose : g.Loose t produced) : g.Loose t' produced' where
  unused := by
    rintro v hv user ⟨hout, hused⟩
    exact hloose.unused v ((h.mem_iff h' v).2 hv) user
      ⟨mt (h.contains_iff h' (.op user)).1 hout, hused⟩
  unbranched := by
    rintro b user ⟨hout, hb, hbranch⟩
    exact hloose.unbranched b user ⟨mt (h.contains_iff h' (.op user)).1 hout,
      (h.contains_iff h' (.block b)).2 hb, hbranch⟩

theorem Collected.prune_eq (h : g.Collected o t produced) (h' : g.Collected o t' produced')
    (howned : g.Owned) : g.prune o t produced = g.prune o t' produced' := by
  rw [howned.prune_eq_cut (hangs_of_contains h.contains),
    howned.prune_eq_cut (hangs_of_contains h'.contains)]
  exact g.cut_congr (h.contains_iff h') (h.mem_iff h')

/-- An operation that is there has a collection. -/
theorem Sound.exists_collected {n : NextHandles} (hs : g.Sound n)
    (ho : g.ops.contains o = true) : ∃ t produced, g.Collected o t produced := by
  obtain ⟨t, produced, ht, hproduced⟩ := hs.exists_producedBy_subtree ho
  exact ⟨t, produced, collected_of_walk hs.owned hs.acyclic ht hproduced⟩

end Graph

/-- An erasure is done just where its subtree is loose, and it cuts the subtree out. -/
theorem Edit.run_eraseOp_eq_done_iff {s : Store V} (hs : s.Sound) {o : Op}
    (ho : s.graph.ops.contains o = true) {t : Subtree} {produced : List Value}
    (hcollected : s.graph.Collected o t produced) {s' : Store V} :
    (eraseOp o).run s = .done () s' ↔
      s.graph.Loose t produced ∧ s' = ⟨s.graph.prune o t produced, s.next⟩ := by
  refine (faultless_eraseOp hs ho).of_ends (P := fun outcome => outcome = .done () s' ↔ _)
    (ends_eraseOp hs ?inUse ?blockInUse ?done)
  case inUse =>
    intro t' produced' ht hproduced v hv user hused
    have hwalk := Graph.collected_of_walk hs.owned hs.acyclic ht hproduced
    exact iff_of_false (by simp) fun h => (hcollected.loose_of hwalk h.1).unused v hv user hused
  case blockInUse =>
    intro t' produced' ht hproduced _ b user hbranched
    have hwalk := Graph.collected_of_walk hs.owned hs.acyclic ht hproduced
    exact iff_of_false (by simp) fun h =>
      (hcollected.loose_of hwalk h.1).unbranched b user hbranched
  case done =>
    intro t' produced' ht hproduced hunused hunbranched
    have hwalk := Graph.collected_of_walk hs.owned hs.acyclic ht hproduced
    have hloose : s.graph.Loose t produced := hwalk.loose_of hcollected ⟨hunused, hunbranched⟩
    rw [hcollected.prune_eq hwalk hs.owned, and_iff_right hloose]
    constructor
    · intro heq
      exact (Outcome.done.inj heq).2.symm
    · rintro rfl
      rfl

end RegionIR
