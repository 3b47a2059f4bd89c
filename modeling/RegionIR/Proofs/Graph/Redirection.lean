import RegionIR.Proofs.Graph.Live
import RegionIR.Proofs.Graph.Operands

/-!
# Filling slot after slot

The slots of a use list are filled one after the other with a new value.  Each
filling takes its slot off the front of the old list and puts it at the end
of the new one, so the old list is handed over in its own order.

Nothing here asks for the two values to differ.  Where they are one value, a
slot taken off the front comes back at the end, and after a whole round the
list stands as it did.

## Main results

* `Graph.Redirected` — a graph before and after the uses of a value have gone
  to another one.
* `Graph.redirected_fillSlots` — what filling the slots of a use list does.
* `Graph.fillSlots_self` — filled with the value they hold, they change nothing.
-/

namespace RegionIR.Graph

variable {V : Type} {g : Graph V} {old new : Value} {l : List Use}

/-- Puts a value into one slot after the other, all of which held another value. -/
def fillSlots (g : Graph V) (old new : Value) (l : List Use) : Graph V :=
  l.foldl (fun g u => g.fillSlot u old new) g

theorem fillSlots_cons (g : Graph V) (old new : Value) (u : Use) (rest : List Use) :
    g.fillSlots old new (u :: rest) = (g.fillSlot u old new).fillSlots old new rest := rfl

/-- Slots of other places do not see a filling. -/
theorem slots_fillSlot {u : Use} {rest : List Use} (hnodup : (u :: rest).Nodup)
    (hslots : ∀ u' ∈ u :: rest, g.slot? u' = some old) (new : Value) :
    ∀ u' ∈ rest, (g.fillSlot u old new).slot? u' = some old := by
  intro u' hu'
  have hne : u' ≠ u := fun heq => (List.nodup_cons.1 hnodup).1 (heq ▸ hu')
  rw [slot?_fillSlot (hslots u List.mem_cons_self), if_neg hne]
  exact hslots u' (List.mem_cons_of_mem u hu')

/-! ## Slots and operands -/

theorem slot?_fillSlots (hnodup : l.Nodup) (hslots : ∀ u ∈ l, g.slot? u = some old) (new : Value)
    (u : Use) : (g.fillSlots old new l).slot? u = if u ∈ l then some new else g.slot? u := by
  induction l generalizing g with
  | nil => simp [fillSlots]
  | cons u' rest ih =>
      rw [fillSlots_cons, ih (List.nodup_cons.1 hnodup).2 (slots_fillSlot hnodup hslots new),
        slot?_fillSlot (hslots u' List.mem_cons_self)]
      by_cases hrest : u ∈ rest
      · simp [hrest]
      · simp [hrest]

/-- Of an operation nothing but its operands is changed. -/
theorem exists_operands_fillSlots {o : Op} {d : OpData V} (hd : g.ops.find? o = some d)
    (old new : Value) (l : List Use) :
    ∃ operands, (g.fillSlots old new l).ops.find? o = some { d with operands := operands } := by
  induction l generalizing g d with
  | nil => exact ⟨d.operands, hd⟩
  | cons u rest ih =>
      have hstep : (g.fillSlot u old new).ops.find? o = some
          { d with operands := if o = u.user then d.operands.set u.index new else d.operands } := by
        simp only [fillSlot, ops_modifyValue, ops_modifyOp, Table.find?_modify, hd]
        split <;> rfl
      obtain ⟨operands, hrest⟩ := ih hstep
      exact ⟨operands, hrest⟩

/-- Where the list has all slots of the old value, every operand is redirected. -/
theorem find?_ops_fillSlots (hnodup : l.Nodup) (hslots : ∀ u, u ∈ l ↔ g.slot? u = some old)
    (new : Value) (o : Op) : (g.fillSlots old new l).ops.find? o = (g.ops.find? o).map fun d =>
      { d with operands := d.operands.map fun v => if v = old then new else v } := by
  cases hd : g.ops.find? o with
  | none =>
      rw [Option.map_none]
      clear hslots hnodup
      induction l generalizing g with
      | nil => exact hd
      | cons u rest ih =>
          have hstep : (g.fillSlot u old new).ops.find? o = none := by
            simp [fillSlot, Table.find?_modify, hd]
          exact ih hstep
  | some d =>
      obtain ⟨operands, hafter⟩ := exists_operands_fillSlots hd old new l
      have hoperands : operands = d.operands.map fun v => if v = old then new else v := by
        apply List.ext_getElem?
        intro i
        have hslot := slot?_fillSlots hnodup (fun u => (hslots u).1) new ⟨o, i⟩
        rw [slot?_eq hafter, slot?_eq hd] at hslot
        have hlisted := hslots ⟨o, i⟩
        rw [slot?_eq hd] at hlisted
        rw [hslot, List.getElem?_map]
        cases hi : d.operands[i]? with
        | none =>
            rw [hi] at hlisted
            simp [hlisted]
        | some v =>
            rw [hi] at hlisted
            by_cases hv : v = old <;> simp [hlisted, hv]
      rw [hafter, Option.map_some, hoperands]

/-! ## Use lists -/

/-- A use list after one slot after the other has been filled. -/
def usesAfterAll (old new v : Value) (l uses : List Use) : List Use :=
  l.foldl (fun uses u => usesAfter u old new v uses) uses

theorem find?_values_fillSlots (g : Graph V) (old new : Value) (l : List Use) (v : Value) :
    (g.fillSlots old new l).values.find? v =
      (g.values.find? v).map fun d => { d with uses := usesAfterAll old new v l d.uses } := by
  induction l generalizing g with
  | nil =>
      cases hd : g.values.find? v <;> simp [fillSlots, usesAfterAll, hd]
  | cons u rest ih =>
      rw [fillSlots_cons, ih, find?_values_fillSlot, Option.map_map]
      rfl

/-- The old list is taken off from its front. -/
theorem usesAfterAll_old (hne : old ≠ new) (l : List Use) : usesAfterAll old new old l l = [] := by
  induction l with
  | nil => rfl
  | cons u rest ih =>
      have hstep : usesAfter u old new old (u :: rest) = rest := by
        rw [usesAfter, if_pos rfl, if_neg hne, List.erase_cons_head]
      rw [usesAfterAll, List.foldl_cons, hstep]
      exact ih

/-- The new list gets the old one behind it. -/
theorem usesAfterAll_new (hne : old ≠ new) (l uses : List Use) :
    usesAfterAll old new new l uses = uses ++ l := by
  induction l generalizing uses with
  | nil => rw [List.append_nil, usesAfterAll, List.foldl_nil]
  | cons u rest ih =>
      have hstep : usesAfter u old new new uses = uses ++ [u] := by
        rw [usesAfter, if_neg (Ne.symm hne), if_pos rfl]
      rw [usesAfterAll, List.foldl_cons, hstep, ← usesAfterAll, ih, List.append_assoc]
      rfl

theorem usesAfterAll_of_ne {v : Value} (hold : v ≠ old) (hnew : v ≠ new) (l uses : List Use) :
    usesAfterAll old new v l uses = uses := by
  induction l with
  | nil => rfl
  | cons u rest ih =>
      have hstep : usesAfter u old new v uses = uses := by
        rw [usesAfter, if_neg hold, if_neg hnew]
      rw [usesAfterAll, List.foldl_cons, hstep]
      exact ih

/-- Slots that come back at the end leave the others in front of them. -/
theorem usesAfterAll_append_self (v : Value) (l behind : List Use) :
    usesAfterAll v v v l (l ++ behind) = behind ++ l := by
  induction l generalizing behind with
  | nil => simp [usesAfterAll]
  | cons u rest ih =>
      have hstep : usesAfter u v v v (u :: rest ++ behind) = rest ++ (behind ++ [u]) := by
        rw [usesAfter, if_pos rfl, if_pos rfl, List.cons_append, List.erase_cons_head,
          List.append_assoc]
      rw [usesAfterAll, List.foldl_cons, hstep, ← usesAfterAll, ih, List.append_assoc]
      rfl

/-! ## Whole use lists -/

/-- The uses of a value have gone to another one, in their order and behind its own uses. -/
structure Redirected (g : Graph V) (old new : Value) (uses : List Use) (g' : Graph V) :
    Prop where
  op : ∀ o, g'.ops.find? o = (g.ops.find? o).map fun d =>
    { d with operands := d.operands.map fun v => if v = old then new else v }
  emptied : g'.values.find? old = (g.values.find? old).map fun d => { d with uses := [] }
  extended : g'.values.find? new =
    (g.values.find? new).map fun d => { d with uses := d.uses ++ uses }
  value : ∀ v, v ≠ old → v ≠ new → g'.values.find? v = g.values.find? v
  blocks : g'.blocks = g.blocks
  regions : g'.regions = g.regions

theorem blocks_fillSlots (g : Graph V) (old new : Value) (l : List Use) :
    (g.fillSlots old new l).blocks = g.blocks := by
  induction l generalizing g with
  | nil => rfl
  | cons u rest ih => exact ih (g.fillSlot u old new)

theorem regions_fillSlots (g : Graph V) (old new : Value) (l : List Use) :
    (g.fillSlots old new l).regions = g.regions := by
  induction l generalizing g with
  | nil => rfl
  | cons u rest ih => exact ih (g.fillSlot u old new)

section UseList

variable (hl : g.uses? old = some l) (hnodup : l.Nodup)
  (hslots : ∀ u, u ∈ l ↔ g.slot? u = some old)
include hl hnodup hslots

theorem redirected_fillSlots (hne : old ≠ new) :
    g.Redirected old new l (g.fillSlots old new l) where
  op := find?_ops_fillSlots hnodup hslots new
  emptied := by
    obtain ⟨d, hd, rfl⟩ := Option.map_eq_some_iff.1 hl
    rw [find?_values_fillSlots, hd, Option.map_some, Option.map_some, usesAfterAll_old hne]
  extended := by
    rw [find?_values_fillSlots]
    simp only [usesAfterAll_new hne]
  value := by
    intro v hold hnew
    rw [find?_values_fillSlots]
    simp only [usesAfterAll_of_ne hold hnew]
    exact Option.map_id_apply
  blocks := blocks_fillSlots g old new l
  regions := regions_fillSlots g old new l

theorem fillSlots_self : g.fillSlots old old l = g := by
  refine ext_find? (fun o => ?ops) (fun v => ?values) (fun b => ?blocks) fun r => ?regions
  case ops =>
    have hsame : (fun v => if v = old then old else v) = id := by
      funext v
      by_cases hv : v = old
      · rw [if_pos hv, hv, id]
      · rw [if_neg hv, id]
    rw [find?_ops_fillSlots hnodup hslots]
    simp only [hsame, List.map_id]
    exact Option.map_id_apply
  case values =>
    rw [find?_values_fillSlots]
    by_cases hv : v = old
    · subst hv
      obtain ⟨d, hd, rfl⟩ := Option.map_eq_some_iff.1 hl
      have hround := usesAfterAll_append_self v d.uses []
      rw [List.append_nil, List.nil_append] at hround
      rw [hd, Option.map_some, hround]
    · simp only [usesAfterAll_of_ne hv hv]
      exact Option.map_id_apply
  case blocks => rw [blocks_fillSlots]
  case regions => rw [regions_fillSlots]

end UseList

end RegionIR.Graph
