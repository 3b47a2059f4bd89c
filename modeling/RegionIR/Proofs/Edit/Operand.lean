import RegionIR.Edit.Operand
import RegionIR.Proofs.Edit.Basic
import RegionIR.Proofs.Graph.Redirection

/-!
# Edits of operands

Replacing all uses of a value empties its use list first and then fills one
slot after the other.  Seen from outside this is a series of fillings, each
of which takes one slot off the old list; the loop below runs next to this
series and stays equal to it up to the list that was emptied.

The loop looks up each slot of the list and does not ask whether it is there.
It is, and holds the old value until its turn comes.

## Main results

* `ends_setOperand`, `ends_replaceAllUses` — both come down to filling slots.
* `atomicFrom_setOperand`, `grantedFrom_replaceAllUses`
* `faultless_setOperand`, `faultless_replaceAllUses`
-/

namespace RegionIR.Edit

open RegionIR.Action

variable {V : Type} {s : Store V}

/-! ## One slot -/

section

variable {done : Unit → Store V → Prop} {refused : EditError → Store V → Prop}

theorem ends_setOperand {o : Op} {i : Nat} {v : Value}
    (hrange : ∀ d, s.graph.ops.find? o = some d → d.operands[i]? = none →
      refused (.outOfRange .operands i d.operands.length) s)
    (hfill : ∀ old, s.graph.slot? ⟨o, i⟩ = some old → s.graph.values.contains v = true →
      done () ⟨s.graph.fillSlot ⟨o, i⟩ old v, s.next⟩) :
    ((setOperand o i v).run s).Ends done refused := by
  rw [setOperand, ends_bind, ends_ask]
  intro d hd
  dsimp only
  cases hi : d.operands[i]? with
  | none => exact hrange d (Table.demand_eq_ok_iff.1 hd) hi
  | some old =>
      simp only [ends_bind, ends_ask, ends_updateOp, ends_updateValue]
      intro e he _ _ _
      have hslot : s.graph.slot? ⟨o, i⟩ = some old := by
        rw [Graph.slot?_eq (Table.demand_eq_ok_iff.1 hd), hi]
      have hv : s.graph.values.contains v = true :=
        Table.contains_iff.2 ⟨e, Table.demand_eq_ok_iff.1 he⟩
      exact hfill old hslot hv

theorem ends_redirectUse {v : Value} {u : Use}
    (h : done () ⟨(s.graph.modifyOp u.user
      fun d => { d with operands := d.operands.set u.index v }).modifyValue v
        fun d => d.addUse u, s.next⟩) :
    ((redirectUse v u).run s).Ends done refused := by
  rw [redirectUse]
  simp only [ends_bind, ends_ask, ends_ite, ends_ofExcept_error, ends_updateOp, ends_updateValue,
    implies_true, true_and]
  exact fun _ _ _ _ _ => h

end

theorem atomicFrom_setOperand (o : Op) (i : Nat) (v : Value) :
    AtomicFrom (setOperand o i v) s :=
  ends_setOperand (fun _ _ _ => .refl s) fun _ hslot hv =>
    Store.Leads.change (.refl s) (.fillSlot hslot hv)

/-! ## All slots of a use list -/

/-- The loop over the slots of a use list, next to the graph that still has the list. -/
theorem ends_forEach_redirectUse {g : Graph V} {n : NextHandles} {old new : Value}
    (hne : old ≠ new) {l : List Use} (hl : g.uses? old = some l) :
    ((forEach l (redirectUse new) : Edit V Unit).run ⟨g.withoutUses old, n⟩).Ends
      (fun _ s' => s' = ⟨g.fillSlots old new l, n⟩) fun _ _ => False := by
  induction l generalizing g with
  | nil =>
      rw [Graph.withoutUses_eq_self hl]
      rfl
  | cons u rest ih =>
      have hrest : (g.fillSlot u old new).uses? old = some rest := by
        rw [Graph.uses?_fillSlot, hl, Option.map_some, Graph.usesAfter, if_pos rfl, if_neg hne,
          List.erase_cons_head]
      rw [forEach_cons, ends_bind]
      refine ends_redirectUse ?_
      rw [← Graph.withoutUses_fillSlot g u hne]
      exact ih hrest

/-- Emptying the list first and filling slots then is filling one slot after the other. -/
theorem ends_replaceAllUses {old new : Value} {done : Unit → Store V → Prop}
    {refused : EditError → Store V → Prop} (hself : old = new → done () s)
    (hfill : old ≠ new → ∀ d, s.graph.values.find? old = some d →
      s.graph.values.contains new = true → done () ⟨s.graph.fillSlots old new d.uses, s.next⟩) :
    ((replaceAllUses old new : Edit V Unit).run s).Ends done refused := by
  rw [replaceAllUses]
  simp only [ends_bind, ends_graph, ends_ite, ends_ofExcept_error, ends_ask, ends_updateValue,
    implies_true, true_and]
  refine fun hnew => ⟨hself, fun hne d hd _ => ?_⟩
  have hfind := Table.demand_eq_ok_iff.1 hd
  refine (ends_forEach_redirectUse hne (Graph.uses?_eq hfind)).mono (fun _ s' hs' => ?_)
    fun _ _ hfalse => hfalse.elim
  rw [hs']
  exact hfill hne d hfind (by simpa using hnew)

theorem leads_fillSlots {g : Graph V} {n : NextHandles} {old new : Value} {l : List Use}
    (hnodup : l.Nodup) (hslots : ∀ u ∈ l, g.slot? u = some old)
    (hnew : g.values.contains new = true) :
    Store.Leads ⟨g, n⟩ ⟨g.fillSlots old new l, n⟩ := by
  induction l generalizing g with
  | nil => exact .refl _
  | cons u rest ih =>
      have hc : Graph.Change n n g (g.fillSlot u old new) :=
        .fillSlot (hslots u List.mem_cons_self) hnew
      have hlive : (g.fillSlot u old new).values.contains new = true :=
        (Graph.live_fillSlot (x := .value new) u old new).2 hnew
      have hrest := Graph.slots_fillSlot hnodup hslots new
      exact (Store.Leads.change (.refl _) hc).trans (ih (List.nodup_cons.1 hnodup).2 hrest hlive)

theorem grantedFrom_replaceAllUses (hs : s.Sound) (old new : Value) :
    GrantedFrom (replaceAllUses old new) s := by
  refine ends_replaceAllUses (fun _ => .refl s) fun _ d hd hnew => ?_
  have huses := Graph.uses?_eq hd
  exact leads_fillSlots (hs.uses.nodup huses) (fun u hu => (hs.uses.mem huses).1 hu) hnew

/-! ## Edits that meet no fault -/

theorem faultless_setOperand (hs : s.Sound) {o : Op} {v : Value}
    (ho : s.graph.ops.contains o = true) (hv : s.graph.values.contains v = true) (i : Nat) :
    ((setOperand o i v).run s).Faultless := by
  obtain ⟨d, hd⟩ := Table.contains_iff.1 ho
  obtain ⟨e, he⟩ := Table.contains_iff.1 hv
  rw [setOperand, faultless_ask_bind (Table.demand_eq_ok_iff.2 hd)]
  dsimp only
  cases hi : d.operands[i]? with
  | none => trivial
  | some old =>
      have hold : s.graph.values.contains old = true :=
        hs.uses.contains_operand hd (List.mem_of_getElem? hi)
      dsimp only
      rw [faultless_ask_bind (Table.demand_eq_ok_iff.2 he), faultless_bind, faultless_updateOp,
        ends_updateOp, faultless_bind, faultless_updateValue, ends_updateValue,
        faultless_updateValue]
      refine ⟨ho, fun _ => ⟨hold, fun _ => ?_⟩⟩
      exact (Table.contains_modify s.graph.values old v _).trans hv

theorem faultless_redirectUse {v old : Value} {u : Use} (hv : s.graph.values.contains v = true)
    (hu : s.graph.slot? u = some old) : ((redirectUse v u).run s).Faultless := by
  obtain ⟨d, hd, hi⟩ := Option.bind_eq_some_iff.1 hu
  obtain ⟨hlt, -⟩ := List.getElem?_eq_some_iff.1 hi
  rw [redirectUse, faultless_ask_bind (Table.demand_eq_ok_iff.2 hd), if_neg (Nat.not_le.2 hlt),
    faultless_bind, faultless_updateOp, ends_updateOp, faultless_updateValue]
  exact ⟨Table.contains_iff.2 ⟨d, hd⟩, fun _ => hv⟩

/-- The loop fills each slot while it still holds the old value. -/
theorem faultless_forEach_redirectUse {old new : Value} {l : List Use} (hnodup : l.Nodup)
    (hslots : ∀ u ∈ l, s.graph.slot? u = some old) (hnew : s.graph.values.contains new = true) :
    ((forEach l (redirectUse new) : Edit V Unit).run s).Faultless := by
  induction l generalizing s with
  | nil => trivial
  | cons u rest ih =>
      obtain ⟨hnot, hrest⟩ := List.nodup_cons.1 hnodup
      have hu := hslots u List.mem_cons_self
      rw [forEach_cons, faultless_bind]
      refine ⟨faultless_redirectUse hnew hu, ends_redirectUse ?_⟩
      refine ih hrest (fun u' hu' => ?_) ?_
      · have hne : u' ≠ u := fun heq => hnot (heq ▸ hu')
        have hafter : (s.graph.fillSlot u old new).slot? u' = some old := by
          rw [Graph.slot?_fillSlot hu, if_neg hne]
          exact hslots u' (List.mem_cons_of_mem u hu')
        exact hafter
      · exact (Table.contains_modify s.graph.values new new _).trans hnew

theorem faultless_replaceAllUses (hs : s.Sound) {old new : Value}
    (hold : s.graph.values.contains old = true) (hnew : s.graph.values.contains new = true) :
    ((replaceAllUses old new : Edit V Unit).run s).Faultless := by
  obtain ⟨d, hd⟩ := Table.contains_iff.1 hold
  have huses := Graph.uses?_eq hd
  have hslots : ∀ u ∈ d.uses, s.graph.slot? u = some old := fun u hu => (hs.uses.mem huses).1 hu
  rw [replaceAllUses, faultless_bind, ends_graph]
  refine ⟨trivial, ?_⟩
  rw [hnew, if_neg (by decide), faultless_ite]
  refine ⟨fun _ => trivial, fun _ => ?_⟩
  rw [faultless_ask_bind (Table.demand_eq_ok_iff.2 hd), faultless_bind, faultless_updateValue,
    ends_updateValue]
  refine ⟨hold, fun _ => faultless_forEach_redirectUse (hs.uses.nodup huses) hslots ?_⟩
  exact (Table.contains_modify s.graph.values old new _).trans hnew

/-! ## One edit or many -/

/-- A slot that is there is filled. -/
theorem run_setOperand (hs : s.Sound) {u : Use} {old new : Value}
    (hslot : s.graph.slot? u = some old) (hnew : s.graph.values.contains new = true) :
    (setOperand u.user u.index new).run s = .done () ⟨s.graph.fillSlot u old new, s.next⟩ := by
  obtain ⟨d, hd, hi⟩ := Option.bind_eq_some_iff.1 hslot
  have huser : s.graph.ops.contains u.user = true := Table.contains_iff.2 ⟨d, hd⟩
  refine (faultless_setOperand hs huser hnew u.index).of_ends (P := (· = .done () _))
    (ends_setOperand (fun d' hd' hnone => ?_) fun old' hslot' _ => ?_)
  · cases hd.symm.trans hd'
    rw [hi] at hnone
    cases hnone
  · cases hslot.symm.trans hslot'
    rfl

/-- Each edit finds its slot as the first one found it. -/
theorem run_forEach_setOperand (hs : s.Sound) {old new : Value} {l : List Use}
    (hnodup : l.Nodup) (hslots : ∀ u ∈ l, s.graph.slot? u = some old)
    (hnew : s.graph.values.contains new = true) :
    (forEach l fun u => setOperand u.user u.index new : Edit V Unit).run s =
      .done () ⟨s.graph.fillSlots old new l, s.next⟩ := by
  induction l generalizing s with
  | nil => rfl
  | cons u rest ih =>
      have hslot := hslots u List.mem_cons_self
      have hstep : s.Leads ⟨s.graph.fillSlot u old new, s.next⟩ :=
        Store.Leads.change (.refl s) (.fillSlot hslot hnew)
      have hlive : (s.graph.fillSlot u old new).values.contains new = true :=
        (Graph.live_fillSlot (x := .value new) u old new).2 hnew
      rw [forEach_cons, run_bind_of_done _ (run_setOperand hs hslot hnew)]
      exact ih (hs.leads hstep) (List.nodup_cons.1 hnodup).2
        (Graph.slots_fillSlot hnodup hslots new) hlive

/-- This includes a value that is replaced by itself, as its list comes round to where it was. -/
theorem run_replaceAllUses (hs : s.Sound) {old new : Value} {d : ValueData}
    (hold : s.graph.values.find? old = some d) (hnew : s.graph.values.contains new = true) :
    (replaceAllUses old new : Edit V Unit).run s =
      .done () ⟨s.graph.fillSlots old new d.uses, s.next⟩ := by
  refine (faultless_replaceAllUses hs (Table.contains_iff.2 ⟨d, hold⟩) hnew).of_ends
    (P := (· = .done () _)) (ends_replaceAllUses (fun heq => ?_) fun _ d' hd' _ => ?_)
  · subst heq
    have huses := Graph.uses?_eq hold
    rw [Graph.fillSlots_self huses (hs.uses.nodup huses) fun u => hs.uses.mem huses]
  · cases hold.symm.trans hd'
    rfl

end RegionIR.Edit
