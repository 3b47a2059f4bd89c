import RegionIR.Edit.Placement
import RegionIR.Proofs.Edit.Basic
import RegionIR.Proofs.Graph.Walks

/-!
# Edits that place operations

An operation is placed where it is in no block and where the check has found
that the block is not within it.  The check looks at the graph before the
edit.  A move takes the operation out first, but with fewer edges in the
graph the block is still not within it.

An operation without a parent is in no list, so its insertion does not find it
there already.  The count of the others in a block takes one off the length
only where the operation is in the list.

## Main results

* `atomicFrom_insertOp`, `atomicFrom_removeOp`, `atomicFrom_spliceOp`
* `faultless_insertOp`, `faultless_removeOp`, `faultless_spliceOp` — no fault with entities that are
  in the graph.
-/

namespace RegionIR.Edit

open RegionIR.Action Relation

variable {V : Type} {s : Store V} {done : Unit → Store V → Prop}
  {refused : EditError → Store V → Prop}

/-- Without a position the operation goes behind the last one. -/
theorem ends_attachOp {b : Block} {place : Option Nat} {o : Op}
    (h : s.graph.blocks.contains b = true → s.graph.ops.contains o = true →
      done () ⟨s.graph.placeOp b (place.getD (s.graph.opsIn b).length) o, s.next⟩) :
    ((attachOp b place o).run s).Ends done refused := by
  rw [attachOp]
  simp only [ends_bind, ends_ask, ends_ofExcept, ends_updateBlock, ends_updateOp]
  intro d hd ops hops hb ho
  have hfind := Table.demand_eq_ok_iff.1 hd
  have hinsert : d.ops.insertAt (place.getD (s.graph.opsIn b).length) o = .ok ops := by
    cases place with
    | some i => exact hops
    | none =>
        rw [Option.getD_none, Graph.opsIn_eq hfind]
        exact d.ops.pushBack_eq_insertAt o ▸ hops
  rw [Graph.placeOp_of_insertAt hfind hinsert]
  exact h hb ho

theorem ends_detachOp (b : Block) (o : Op) :
    ((detachOp b o).run s).Ends done refused ↔
      (s.graph.blocks.contains b = true → s.graph.ops.contains o = true →
        done () ⟨s.graph.takeOp b o, s.next⟩) := by
  rw [detachOp]
  simp only [ends_bind, ends_updateBlock, ends_updateOp]
  rfl

/-- The number of the other operations is the length of the list without the one. -/
theorem ends_othersInBlock (hs : s.Sound) {b : Block} {o : Op} {done : Nat → Store V → Prop}
    (hdone : done ((s.graph.opsIn b).erase o).length s) :
    ((othersInBlock b o).run s).Ends done refused := by
  rw [othersInBlock]
  simp only [ends_bind, ends_ask, ends_ite, ends_ofExcept, ends_pure]
  intro d hd e he
  rw [Graph.opsIn_eq (Table.demand_eq_ok_iff.1 hd)] at hdone
  have hlisted : e.parent = some b ↔ o ∈ d.ops.items := by
    rw [← Graph.parent?_eq (Table.demand_eq_ok_iff.1 he),
      ← Graph.opsIn_eq (Table.demand_eq_ok_iff.1 hd)]
    exact hs.owned.op.symm
  rw [hlisted]
  refine ⟨fun hmem length hlength => ?_, fun hnot => ?_⟩
  · have hcount : Checked.sub d.ops.length 1 = .ok (d.ops.items.length - 1) :=
      if_pos (List.length_pos_of_mem hmem)
    cases hlength.symm.trans hcount
    rwa [List.length_erase_of_mem hmem] at hdone
  · rwa [List.erase_of_not_mem hnot] at hdone

/-- The check changes nothing.  It is refused where the other operations end before the position,
and where the block is within the operation. -/
theorem ends_checkPlace (hs : s.Sound) {b : Block} {i : Nat} {o : Op}
    (hrange : ((s.graph.opsIn b).erase o).length < i →
      refused (.outOfRange .operations i ((s.graph.opsIn b).erase o).length) s)
    (hcycle : i ≤ ((s.graph.opsIn b).erase o).length → s.graph.Within (.block b) (.op o) →
      refused (.opCycle o b) s)
    (hdone : i ≤ ((s.graph.opsIn b).erase o).length → ¬ s.graph.Within (.block b) (.op o) →
      done () s) : ((checkPlace b i o).run s).Ends done refused := by
  rw [checkPlace, ends_bind]
  refine ends_othersInBlock hs ?_
  simp only [ends_bind, ends_ask, ends_ite, ends_refuse, ends_pure]
  refine ⟨hrange, fun hle d hd inside hinside => ?_⟩
  obtain ⟨inside', hinside', hiff⟩ := Graph.blockInside_eq_ok hs.owned hs.acyclic b d.regions
  cases hinside.symm.trans hinside'
  rw [← Graph.regionsOf_eq (Table.demand_eq_ok_iff.1 hd), ← Graph.block_within_op_iff] at hiff
  rw [hiff]
  exact ⟨hcycle (Nat.not_lt.1 hle), hdone (Nat.not_lt.1 hle)⟩

/-! ## The edits -/

/-- An operation is inserted unless it has a parent, the block ends before the position, or the
block is within the operation. -/
theorem ends_insertOp (hs : s.Sound) {b : Block} {i : Nat} {o : Op}
    (howned : ∀ p, s.graph.parent? o = some p → refused (.opAlreadyOwned o p) s)
    (hrange : s.graph.parent? o = none → (s.graph.opsIn b).length < i →
      refused (.outOfRange .operations i (s.graph.opsIn b).length) s)
    (hcycle : s.graph.parent? o = none → i ≤ (s.graph.opsIn b).length →
      s.graph.Within (.block b) (.op o) → refused (.opCycle o b) s)
    (hdone : s.graph.parent? o = none → i ≤ (s.graph.opsIn b).length →
      ¬ s.graph.Within (.block b) (.op o) → s.graph.blocks.contains b = true →
        s.graph.ops.contains o = true → done () ⟨s.graph.placeOp b i o, s.next⟩) :
    ((insertOp b i o).run s).Ends done refused := by
  rw [insertOp, ends_bind, ends_ask]
  intro d hd
  have hparent := Graph.parent?_eq (Table.demand_eq_ok_iff.1 hd)
  cases hfree : d.parent with
  | some p => exact howned p (hparent.trans hfree)
  | none =>
      have hfree := hparent.trans hfree
      have hothers : (s.graph.opsIn b).erase o = s.graph.opsIn b :=
        List.erase_of_not_mem (hs.owned.not_mem_opsIn hfree b)
      rw [← hothers] at hrange hcycle hdone
      dsimp only
      rw [ends_bind]
      refine ends_checkPlace hs (hrange hfree) (hcycle hfree) fun hle hapart => ?_
      rw [hothers] at hdone
      exact ends_attachOp (hdone hfree (hothers ▸ hle) hapart)

theorem ends_removeOp {b : Block} {o : Op}
    (hapart : s.graph.parent? o ≠ some b → refused (.opNotOwned o b) s)
    (hdone : s.graph.parent? o = some b → s.graph.blocks.contains b = true →
      s.graph.ops.contains o = true → done () ⟨s.graph.takeOp b o, s.next⟩) :
    ((removeOp b o).run s).Ends done refused := by
  rw [removeOp, ends_bind, ends_ask]
  intro d hd
  rw [← Graph.parent?_eq (Table.demand_eq_ok_iff.1 hd), ends_ite, ends_detachOp]
  exact ⟨hdone, hapart⟩

/-- An operation is moved unless it is not in the block, the other operations of the target end
before the position, or the target is within the operation. -/
theorem ends_spliceOp (hs : s.Sound) {b target : Block} {o : Op} {i : Nat}
    (hapart : s.graph.parent? o ≠ some b → refused (.opNotOwned o b) s)
    (hrange : s.graph.parent? o = some b → ((s.graph.opsIn target).erase o).length < i →
      refused (.outOfRange .operations i ((s.graph.opsIn target).erase o).length) s)
    (hcycle : s.graph.parent? o = some b → i ≤ ((s.graph.opsIn target).erase o).length →
      s.graph.Within (.block target) (.op o) → refused (.opCycle o target) s)
    (hdone : s.graph.parent? o = some b → i ≤ ((s.graph.opsIn target).erase o).length →
      ¬ s.graph.Within (.block target) (.op o) → s.graph.blocks.contains target = true →
        s.graph.ops.contains o = true →
          done () ⟨(s.graph.takeOp b o).placeOp target i o, s.next⟩) :
    ((spliceOp b o target i).run s).Ends done refused := by
  rw [spliceOp, ends_bind, ends_ask]
  intro d hd
  rw [← Graph.parent?_eq (Table.demand_eq_ok_iff.1 hd), ends_ite]
  refine ⟨fun hb => ?_, hapart⟩
  rw [ends_bind]
  refine ends_checkPlace hs (hrange hb) (hcycle hb) fun hle hapart => ?_
  rw [ends_bind, ends_detachOp]
  intro _ ho
  refine ends_attachOp fun htarget _ => hdone hb hle hapart ?_ ho
  exact (Graph.live_takeOp (x := .block target) b o).1 htarget

theorem atomicFrom_insertOp (hs : s.Sound) (b : Block) (i : Nat) (o : Op) :
    AtomicFrom (insertOp b i o) s := by
  refine ends_insertOp hs (fun _ _ => .refl s) (fun _ _ => .refl s) (fun _ _ _ => .refl s) ?_
  intro hfree _ hapart hb ho
  exact Store.Leads.change (.refl s) (.placeOp i hb ho hfree hapart)

theorem atomicFrom_pushOpFront (hs : s.Sound) (b : Block) (o : Op) :
    AtomicFrom (pushOpFront b o) s :=
  atomicFrom_insertOp hs b 0 o

theorem atomicFrom_pushOpBack (hs : s.Sound) (b : Block) (o : Op) :
    AtomicFrom (pushOpBack b o) s :=
  .ask fun d _ => atomicFrom_insertOp hs b d.ops.length o

theorem atomicFrom_removeOp (b : Block) (o : Op) : AtomicFrom (removeOp b o) s :=
  ends_removeOp (fun _ => .refl s) fun hb _ _ => Store.Leads.change (.refl s) (.takeOp hb)

theorem atomicFrom_spliceOp (hs : s.Sound) (b : Block) (o : Op) (target : Block) (i : Nat) :
    AtomicFrom (spliceOp b o target i) s := by
  refine ends_spliceOp hs (fun _ => .refl s) (fun _ _ => .refl s) (fun _ _ _ => .refl s) ?_
  intro hb _ hapart htarget ho
  refine (Store.Leads.change (.refl s) (.takeOp hb)).change (.placeOp i ?_ ?_ ?_ ?_)
  · exact (Graph.live_takeOp (x := .block target) b o).2 htarget
  · exact (Graph.live_takeOp (x := .op o) b o).2 ho
  · exact Graph.parent?_takeOp_self s.graph b o
  · rwa [hs.acyclic.within_takeOp_iff]

/-! ## Edits that meet no fault -/

/-- An operation that the block does not list yet can be linked into it. -/
theorem faultless_attachOp {b : Block} {o : Op} (hb : s.graph.blocks.contains b = true)
    (ho : s.graph.ops.contains o = true) (hnot : o ∉ s.graph.opsIn b) (place : Option Nat) :
    ((attachOp b place o).run s).Faultless := by
  obtain ⟨d, hd⟩ := Table.contains_iff.1 hb
  rw [Graph.opsIn_eq hd] at hnot
  rw [attachOp, faultless_ask_bind (Table.demand_eq_ok_iff.2 hd)]
  simp only [faultless_bind, faultless_ofExcept, ends_ofExcept, faultless_updateBlock,
    ends_updateBlock, faultless_updateOp]
  refine ⟨?_, fun ops _ => ⟨hb, fun _ => ho⟩⟩
  cases place with
  | some i =>
      obtain ⟨ops, hops, -⟩ := Roster.items_insertAt (l := d.ops) hnot i
      exact ⟨ops, hops⟩
  | none => exact ⟨_, dif_neg hnot⟩

theorem faultless_detachOp {b : Block} {o : Op} (hb : s.graph.blocks.contains b = true)
    (ho : s.graph.ops.contains o = true) : ((detachOp b o).run s).Faultless := by
  rw [detachOp, faultless_bind, faultless_updateBlock, ends_updateBlock]
  exact ⟨hb, fun _ => (faultless_updateOp o _).2 ho⟩

/-- A block that holds an operation has at least one, so the others can be counted. -/
theorem faultless_othersInBlock (hs : s.Sound) {b : Block} {o : Op}
    (hb : s.graph.blocks.contains b = true) (ho : s.graph.ops.contains o = true) :
    ((othersInBlock b o).run s).Faultless := by
  obtain ⟨d, hd⟩ := Table.contains_iff.1 hb
  obtain ⟨e, he⟩ := Table.contains_iff.1 ho
  rw [othersInBlock, faultless_ask_bind (Table.demand_eq_ok_iff.2 hd),
    faultless_ask_bind (Table.demand_eq_ok_iff.2 he), faultless_ite]
  refine ⟨fun hparent => ?_, fun _ => trivial⟩
  have hlisted := hs.owned.op.2 ((Graph.parent?_eq he).trans hparent)
  rw [Graph.opsIn_eq hd] at hlisted
  exact (faultless_ofExcept _).2 ⟨_, if_pos (List.length_pos_of_mem hlisted)⟩

theorem faultless_checkPlace (hs : s.Sound) {b : Block} {o : Op}
    (hb : s.graph.blocks.contains b = true) (ho : s.graph.ops.contains o = true) (i : Nat) :
    ((checkPlace b i o).run s).Faultless := by
  obtain ⟨e, he⟩ := Table.contains_iff.1 ho
  obtain ⟨inside, hinside, -⟩ := Graph.blockInside_eq_ok hs.owned hs.acyclic b e.regions
  rw [checkPlace, faultless_bind]
  refine ⟨faultless_othersInBlock hs hb ho, ends_othersInBlock hs ?_⟩
  rw [faultless_ite]
  refine ⟨fun _ => trivial, fun _ => ?_⟩
  rw [faultless_ask_bind (Table.demand_eq_ok_iff.2 he), faultless_ask_bind hinside]
  cases inside <;> trivial

theorem faultless_insertOp (hs : s.Sound) {b : Block} {o : Op}
    (hb : s.graph.blocks.contains b = true) (ho : s.graph.ops.contains o = true) (i : Nat) :
    ((insertOp b i o).run s).Faultless := by
  obtain ⟨e, he⟩ := Table.contains_iff.1 ho
  rw [insertOp, faultless_ask_bind (Table.demand_eq_ok_iff.2 he)]
  cases hfree : e.parent with
  | some parent => trivial
  | none =>
      have hnot := hs.owned.not_mem_opsIn ((Graph.parent?_eq he).trans hfree) b
      rw [faultless_bind]
      refine ⟨faultless_checkPlace hs hb ho i, ?_⟩
      refine ends_checkPlace hs (fun _ => trivial) (fun _ _ => trivial) fun _ _ => ?_
      exact faultless_attachOp hb ho hnot (some i)

/-- An operation is pushed to where the list of the block ends. -/
theorem run_pushOpBack {b : Block} (hb : s.graph.blocks.contains b = true) (o : Op) :
    (pushOpBack b o).run s = (insertOp b (s.graph.opsIn b).length o).run s := by
  obtain ⟨d, hd⟩ := Table.contains_iff.1 hb
  rw [pushOpBack, run_ask_bind (Table.demand_eq_ok_iff.2 hd), Graph.opsIn_eq hd]
  rfl

theorem faultless_pushOpBack (hs : s.Sound) {b : Block} {o : Op}
    (hb : s.graph.blocks.contains b = true) (ho : s.graph.ops.contains o = true) :
    ((pushOpBack b o).run s).Faultless := by
  rw [run_pushOpBack hb]
  exact faultless_insertOp hs hb ho _

theorem faultless_removeOp {b : Block} {o : Op} (hb : s.graph.blocks.contains b = true)
    (ho : s.graph.ops.contains o = true) : ((removeOp b o).run s).Faultless := by
  obtain ⟨e, he⟩ := Table.contains_iff.1 ho
  rw [removeOp, faultless_ask_bind (Table.demand_eq_ok_iff.2 he), faultless_ite]
  exact ⟨fun _ => faultless_detachOp hb ho, fun _ => trivial⟩

/-- An operation that has been taken out of its block is in no block. -/
theorem faultless_spliceOp (hs : s.Sound) {b target : Block} {o : Op}
    (hb : s.graph.blocks.contains b = true) (ho : s.graph.ops.contains o = true)
    (htarget : s.graph.blocks.contains target = true) (i : Nat) :
    ((spliceOp b o target i).run s).Faultless := by
  obtain ⟨e, he⟩ := Table.contains_iff.1 ho
  rw [spliceOp, faultless_ask_bind (Table.demand_eq_ok_iff.2 he), faultless_ite]
  refine ⟨fun hparent => ?_, fun _ => trivial⟩
  rw [faultless_bind]
  refine ⟨faultless_checkPlace hs htarget ho i, ?_⟩
  refine ends_checkPlace hs (fun _ => trivial) (fun _ _ => trivial) fun _ _ => ?_
  rw [faultless_bind, ends_detachOp]
  refine ⟨faultless_detachOp hb ho, fun _ _ => ?_⟩
  have hnot := hs.owned.not_mem_opsIn_takeOp ((Graph.parent?_eq he).trans hparent) target
  refine faultless_attachOp ?_ ?_ hnot (some i)
  · exact (Graph.live_takeOp (x := .block target) b o).2 htarget
  · exact (Graph.live_takeOp (x := .op o) b o).2 ho

end RegionIR.Edit
