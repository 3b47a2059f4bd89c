import Mathlib.Data.List.InsertIdx
import RegionIR.Proofs.Edit.Placement
import RegionIR.Proofs.Edit.Region

/-!
# Insertion at a position

A list finds the place of a new entry by an anchor, the entry that stands at the
position before, and has another way for the position behind its last entry.
Both ways end in the same list: the one with the new entry at the position.

Edits place operations and blocks in this way alone.  What holds of the lists
therefore holds of them in every graph, be its links in order or not: the check
of a place comes first, and what the edit does after it is one insertion.

## Main results

* `Inserted` — a list with one more entry, seen at all positions.
* `Roster.inserted_insertAt` — insertion by an anchor.
* `insertionsEnd` — how insertions end, and how the edits go back to them.
-/

namespace RegionIR

variable {α V : Type}

/-! ## Lists with one more entry -/

/-- A list has a new entry at a position.  The others keep their order. -/
structure Inserted [DecidableEq α] (l : List α) (i : Nat) (a : α) (l' : List α) : Prop where
  eq : l' = l.insertIdx i a
  self : l'[i]? = some a
  before : ∀ {j}, j < i → l'[j]? = l[j]?
  behind : ∀ {j}, i ≤ j → l'[j + 1]? = l[j]?
  others : l'.erase a = l
  front : l'.head? = if i = 0 then some a else l.head?
  back : l'.getLast? = if i = l.length then some a else l.getLast?

/-- The list is split at the position, and the entry stands between the parts. -/
theorem take_append_cons_drop {l : List α} {i : Nat} (hi : i ≤ l.length) (a : α) :
    l.take i ++ a :: l.drop i = l.insertIdx i a := by
  obtain ⟨front, back, hl, hlength, hsplit⟩ := List.exists_of_modifyTailIdx (List.cons a) hi
  rw [List.insertIdx, hsplit, ← hlength, hl, List.take_left, List.drop_left]

theorem Inserted.insertIdx [DecidableEq α] {l : List α} {i : Nat} {a : α} (h : a ∉ l)
    (hi : i ≤ l.length) : Inserted l i a (l.insertIdx i a) where
  eq := rfl
  self := by rw [List.getElem?_insertIdx_self, if_pos hi]
  before hj := List.getElem?_insertIdx_of_lt hj
  behind hj := List.getElem?_insertIdx_of_gt (Nat.lt_succ_of_le hj)
  others := by
    have hnot : a ∉ l.take i := fun hmem => h (List.mem_of_mem_take hmem)
    rw [← take_append_cons_drop hi, List.erase_append_right _ hnot, List.erase_cons_head,
      List.take_append_drop]
  front := by
    rw [List.head?_eq_getElem?, List.getElem?_insertIdx]
    cases i with
    | zero => simp
    | succ i => simp [List.head?_eq_getElem?]
  back := by
    rw [List.getLast?_eq_getElem?, List.length_insertIdx_of_le_length hi, Nat.add_sub_cancel]
    by_cases hlast : i = l.length
    · rw [if_pos hlast, ← hlast, List.getElem?_insertIdx_self, if_pos hi]
    · -- The last entry has moved by one position.
      rw [if_neg hlast, List.getElem?_insertIdx_of_gt (by omega), List.getLast?_eq_getElem?]

namespace Roster

variable [DecidableEq α]

theorem insertAt_of_not_mem {l : Roster α} {a : α} (h : a ∉ l.items) (i : Nat) :
    l.insertAt i a = .ok (l.place i a) := by
  obtain ⟨l', hl', -⟩ := items_insertAt (l := l) h i
  rw [place, hl']

theorem inserted_place {l : Roster α} {a : α} (h : a ∉ l.items) {i : Nat}
    (hi : i ≤ l.items.length) : Inserted l.items i a (l.place i a).items := by
  rw [items_place h, take_append_cons_drop hi]
  exact .insertIdx h hi

/-- An insertion that ends with a list has placed an entry that was not listed. -/
theorem inserted_insertAt {l l' : Roster α} {i : Nat} {a : α} (hi : i ≤ l.items.length)
    (h : l.insertAt i a = .ok l') : a ∉ l.items ∧ Inserted l.items i a l'.items := by
  obtain ⟨hnot, rfl⟩ := insertAt_eq_ok h
  exact ⟨hnot, inserted_place hnot hi⟩

end Roster

namespace Edit

open RegionIR.Action

variable {s : Store V}

/-! ## Operations in blocks -/

section Operations

variable {b : Block} {o : Op}

/-- A link adds the operation to the list of the block, which did not have it. -/
theorem ends_attachOp_inserted (place : Option Nat)
    (hplace : place.getD (s.graph.opsIn b).length ≤ (s.graph.opsIn b).length) :
    ((attachOp b place o).run s).Ends (fun _ s' => o ∉ s.graph.opsIn b ∧
      Inserted (s.graph.opsIn b) (place.getD (s.graph.opsIn b).length) o (s'.graph.opsIn b))
        fun _ _ => True := by
  rw [attachOp]
  simp only [ends_bind, ends_ask, ends_ofExcept, ends_updateBlock, ends_updateOp]
  intro d hd ops hops _ _
  have hfind := Table.demand_eq_ok_iff.1 hd
  rw [Graph.opsIn_eq hfind] at hplace ⊢
  have hinsert : d.ops.insertAt (place.getD d.ops.items.length) o = .ok ops := by
    cases place with
    | some i => exact hops
    | none => exact d.ops.pushBack_eq_insertAt o ▸ hops
  have hlist : (((s.graph.modifyBlock b fun d => { d with ops := ops }).modifyOp o
      fun d => { d with parent := some b }).opsIn b) = ops.items := by
    simp [Graph.opsIn, Table.find?_modify, hfind]
  rw [hlist]
  exact Roster.inserted_insertAt hplace hinsert

/-- An operation without a parent is not one of those that the block has already. -/
theorem ends_checkPlace_of_free {i : Nat} {done : Unit → Store V → Prop}
    (hfree : s.graph.parent? o = none) (hdone : i ≤ (s.graph.opsIn b).length → done () s) :
    ((checkPlace b i o).run s).Ends done fun _ _ => True := by
  rw [checkPlace, othersInBlock]
  simp only [ends_bind, ends_ask, ends_ite, ends_ofExcept, ends_refuse, ends_pure]
  intro d hd e he
  rw [Graph.opsIn_eq (Table.demand_eq_ok_iff.1 hd)] at hdone
  have hnone : e.parent = none := (Graph.parent?_eq (Table.demand_eq_ok_iff.1 he)).symm.trans hfree
  refine ⟨fun hparent => ?_, fun _ => ⟨fun _ => trivial, fun hle _ _ _ _ => ?_⟩⟩
  · cases hnone.symm.trans hparent
  · exact ⟨fun _ => trivial, fun _ => hdone (Nat.not_lt.1 hle)⟩

theorem ends_insertOp_inserted (b : Block) (i : Nat) (o : Op) :
    ((insertOp b i o).run s).Ends (fun _ s' => i ≤ (s.graph.opsIn b).length ∧
      o ∉ s.graph.opsIn b ∧ Inserted (s.graph.opsIn b) i o (s'.graph.opsIn b))
        fun _ _ => True := by
  rw [insertOp, ends_bind, ends_ask]
  intro d hd
  have hparent := Graph.parent?_eq (Table.demand_eq_ok_iff.1 hd)
  cases hfree : d.parent with
  | some p => trivial
  | none =>
      dsimp only
      rw [ends_bind]
      refine ends_checkPlace_of_free (hparent.trans hfree) fun hle => ?_
      refine (ends_attachOp_inserted (some i) hle).mono (fun _ _ h => ⟨hle, h⟩) ?_
      exact fun _ _ h => h

/-- To link without a position is to link behind the last operation. -/
theorem run_attachOp_none (b : Block) (o : Op) :
    (attachOp b none o).run s = (attachOp b (some (s.graph.opsIn b).length) o).run s := by
  cases hb : s.graph.block b with
  | error c =>
      have hask : (ask fun g : Graph V => g.block b).run s = .fault c := run_read_of_error hb
      rw [attachOp, attachOp, run_bind, run_bind, hask]
  | ok d =>
      rw [attachOp, attachOp, run_ask_bind hb, run_ask_bind hb,
        Graph.opsIn_eq (Table.demand_eq_ok_iff.1 hb)]
      dsimp only
      rw [d.ops.pushBack_eq_insertAt o]
      rfl

end Operations

/-! ## Blocks in regions -/

theorem ends_insertBlock_inserted (r : Region) (i : Nat) (b : Block) :
    ((insertBlock r i b).run s).Ends (fun _ s' => i ≤ (s.graph.blocksIn r).length ∧
      b ∉ s.graph.blocksIn r ∧ Inserted (s.graph.blocksIn r) i b (s'.graph.blocksIn r))
        fun _ _ => True := by
  rw [insertBlock, ends_bind, ends_ask]
  intro e _
  cases e.owner with
  | some owner => trivial
  | none =>
      simp only [ends_bind, ends_ask, ends_ite, ends_ofExcept, ends_refuse, ends_updateRegion,
        ends_updateBlock]
      intro d hd
      have hfind := Table.demand_eq_ok_iff.1 hd
      refine ⟨fun _ => trivial, fun hle _ _ => ⟨fun _ => trivial, fun _ blocks hblocks _ _ => ?_⟩⟩
      have hlist : (((s.graph.modifyRegion r fun d => { d with blocks := blocks }).modifyBlock b
          fun d => { d with owner := some r }).blocksIn r) = blocks.items := by
        simp [Graph.blocksIn, Table.find?_modify, hfind]
      rw [hlist, Graph.blocksIn_eq hfind]
      exact ⟨Nat.not_lt.1 hle, Roster.inserted_insertAt (Nat.not_lt.1 hle) hblocks⟩

end Edit

/-! ## The guarantee -/

/-- How the insertions of an entry into a list end. -/
structure Roster.InsertionEnds [DecidableEq α] (l : Roster α) (a : α) : Prop where
  placed : a ∉ l → ∀ {i}, i ≤ l.length →
    ∃ l', l.insertAt i a = .ok l' ∧ Inserted l.items i a l'.items
  pushed : l.pushBack a = l.insertAt l.length a
  refused : a ∈ l → ∀ i, l.insertAt i a = .error .alreadyListed

/-- What the edits of a store do to its lists.  They insert at the position that they are given,
and a push is the insertion at one of the ends. -/
structure InsertingEdits (s : Store V) : Prop where
  op : ∀ {b i o s'}, (Edit.insertOp b i o).run s = .done () s' →
    i ≤ (s.graph.opsIn b).length ∧ o ∉ s.graph.opsIn b ∧
      Inserted (s.graph.opsIn b) i o (s'.graph.opsIn b)
  op_front : ∀ b o, (Edit.pushOpFront b o).run s = (Edit.insertOp b 0 o).run s
  op_back : ∀ {b}, s.graph.blocks.contains b = true → ∀ o,
    (Edit.pushOpBack b o).run s = (Edit.insertOp b (s.graph.opsIn b).length o).run s
  /-- A new operation is linked behind the others without a look at their number. -/
  op_end : ∀ b o, (Edit.attachOp b none o).run s =
    (Edit.attachOp b (some (s.graph.opsIn b).length) o).run s
  block : ∀ {r i b s'}, (Edit.insertBlock r i b).run s = .done () s' →
    i ≤ (s.graph.blocksIn r).length ∧ b ∉ s.graph.blocksIn r ∧
      Inserted (s.graph.blocksIn r) i b (s'.graph.blocksIn r)
  block_front : ∀ r b, (Edit.pushBlockFront r b).run s = (Edit.insertBlock r 0 b).run s
  block_back : ∀ {r}, s.graph.regions.contains r = true → ∀ b,
    (Edit.pushBlockBack r b).run s = (Edit.insertBlock r (s.graph.blocksIn r).length b).run s

/-- An insertion places an entry that is not listed, at any position up to the end, and never one
that is listed.  The edits of any store insert in this way. -/
theorem insertionsEnd [DecidableEq α] (l : Roster α) (a : α) (s : Store V) :
    l.InsertionEnds a ∧ InsertingEdits s where
  left := {
    placed := fun hnot _ hi => ⟨_, Roster.insertAt_of_not_mem hnot _, Roster.inserted_place hnot hi⟩
    pushed := l.pushBack_eq_insertAt a
    refused := Roster.insertAt_of_mem }
  right := {
    op := by
      intro b i o s' hrun
      have hends := Edit.ends_insertOp_inserted (s := s) b i o
      rwa [hrun] at hends
    op_front := fun _ _ => rfl
    op_back := fun hb o => Edit.run_pushOpBack hb o
    op_end := Edit.run_attachOp_none
    block := by
      intro r i b s' hrun
      have hends := Edit.ends_insertBlock_inserted (s := s) r i b
      rwa [hrun] at hends
    block_front := fun _ _ => rfl
    block_back := fun hr b => Edit.run_pushBlockBack hr b }

end RegionIR
