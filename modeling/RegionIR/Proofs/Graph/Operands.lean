import RegionIR.Proofs.Graph.Views

/-!
# Filling an operand slot

A slot is filled at three places: the slot itself, the use list of the value
that was in it, and the use list of the value that is now in it.  The two
values may be one; then its use list loses the slot and gets it back at the
end.

## Main results

* `Graph.slot?_fillSlot`, `Graph.uses?_fillSlot` — what the three changes do.
-/

namespace RegionIR.Graph

variable {V : Type}

/-- Puts a value into the slot that held another one. -/
def fillSlot (g : Graph V) (u : Use) (old new : Value) : Graph V :=
  ((g.modifyOp u.user fun d => { d with operands := d.operands.set u.index new }).modifyValue old
    fun d => d.dropUse u).modifyValue new fun d => d.addUse u

theorem slot?_fillSlot {g : Graph V} {u : Use} {old : Value} (h : g.slot? u = some old)
    (new : Value) (u' : Use) :
    (g.fillSlot u old new).slot? u' = if u' = u then some new else g.slot? u' := by
  obtain ⟨d, hd, hi⟩ := Option.bind_eq_some_iff.1 h
  have hlt : u.index < d.operands.length := (List.getElem?_eq_some_iff.1 hi).1
  simp only [fillSlot, slot?, ops_modifyValue, ops_modifyOp, Table.find?_modify]
  by_cases huser : u'.user = u.user
  · rw [if_pos huser, huser, hd]
    by_cases hindex : u'.index = u.index
    · have hu : u' = u := by cases u; cases u'; simp_all
      simp [hu, hlt]
    · have hu : u' ≠ u := fun heq => hindex (by rw [heq])
      simp [hu, List.getElem?_set_ne (Ne.symm hindex)]
  · have hu : u' ≠ u := fun heq => huser (by rw [heq])
    rw [if_neg huser, if_neg hu]

/-- The use list of a value after a slot has been filled. -/
def usesAfter (u : Use) (old new v : Value) (l : List Use) : List Use :=
  let kept := if v = old then l.erase u else l
  if v = new then kept ++ [u] else kept

theorem find?_values_fillSlot (g : Graph V) (u : Use) (old new v : Value) :
    (g.fillSlot u old new).values.find? v =
      (g.values.find? v).map fun d => { d with uses := usesAfter u old new v d.uses } := by
  simp only [fillSlot, values_modifyValue, values_modifyOp, Table.find?_modify]
  cases g.values.find? v with
  | none => simp
  | some d =>
      by_cases hold : v = old
      · by_cases hnew : v = new
        · simp [usesAfter, if_pos hold, if_pos hnew, ValueData.dropUse, ValueData.addUse]
        · simp [usesAfter, if_pos hold, if_neg hnew, ValueData.dropUse]
      · by_cases hnew : v = new
        · simp [usesAfter, if_neg hold, if_pos hnew, ValueData.addUse]
        · simp [usesAfter, if_neg hold, if_neg hnew]

theorem uses?_fillSlot (g : Graph V) (u : Use) (old new v : Value) :
    (g.fillSlot u old new).uses? v = (g.uses? v).map (usesAfter u old new v) := by
  rw [uses?, uses?, find?_values_fillSlot, Option.map_map, Option.map_map]
  rfl

section UsesAfter

variable {u : Use} {old new v : Value} {l : List Use}

private theorem mem_kept (hnodup : l.Nodup) (hedge : u ∈ l ↔ v = old) {u' : Use} :
    u' ∈ (if v = old then l.erase u else l) ↔ u' ∈ l ∧ u' ≠ u := by
  split
  · rw [hnodup.mem_erase_iff, and_comm]
  · rename_i hv
    have hout : u ∉ l := mt hedge.1 hv
    exact ⟨fun hin => ⟨hin, fun heq => hout (heq ▸ hin)⟩, And.left⟩

/-- The slot is in the list of the new value, and in no other list. -/
theorem mem_usesAfter (hnodup : l.Nodup) (hedge : u ∈ l ↔ v = old) {u' : Use} :
    u' ∈ usesAfter u old new v l ↔ (u' ∈ l ∧ u' ≠ u) ∨ (v = new ∧ u' = u) := by
  unfold usesAfter
  by_cases hv : v = new
  · rw [if_pos hv, List.mem_append, List.mem_singleton, mem_kept hnodup hedge]
    simp [hv]
  · rw [if_neg hv, mem_kept hnodup hedge]
    simp [hv]

theorem nodup_usesAfter (hnodup : l.Nodup) (hedge : u ∈ l ↔ v = old) :
    (usesAfter u old new v l).Nodup := by
  have hkept : (if v = old then l.erase u else l).Nodup := by
    split
    · exact hnodup.erase u
    · exact hnodup
  have hout : u ∉ (if v = old then l.erase u else l) := by
    rw [mem_kept hnodup hedge]
    exact fun hin => hin.2 rfl
  unfold usesAfter
  by_cases hv : v = new
  · rw [if_pos hv]
    refine List.nodup_append.2 ⟨hkept, List.pairwise_singleton _ u, ?_⟩
    intro a ha b hb heq
    rw [List.mem_singleton] at hb
    rw [heq, hb] at ha
    exact hout ha
  · rw [if_neg hv]
    exact hkept

end UsesAfter

/-! ## Emptied use lists -/

/-- Empties the use list of a value. -/
def withoutUses (g : Graph V) (v : Value) : Graph V :=
  g.modifyValue v fun d => { d with uses := [] }

theorem withoutUses_eq_self {g : Graph V} {v : Value} (h : g.uses? v = some []) :
    g.withoutUses v = g := by
  have hvalues : (g.values.modify v fun d => { d with uses := [] }) = g.values := by
    apply Table.ext_find?
    intro v'
    rw [Table.find?_modify]
    by_cases hv : v' = v
    · subst hv
      obtain ⟨d, hd, huses⟩ := Option.map_eq_some_iff.1 h
      rw [if_pos rfl, hd, Option.map_some, ← huses]
    · rw [if_neg hv]
  unfold withoutUses modifyValue
  rw [hvalues]

/-- Where the use list of the old value is emptied beforehand, it need not lose the slot. -/
theorem withoutUses_fillSlot (g : Graph V) (u : Use) {old new : Value} (hne : old ≠ new) :
    (g.fillSlot u old new).withoutUses old =
      ((g.withoutUses old).modifyOp u.user
        fun d => { d with operands := d.operands.set u.index new }).modifyValue new
          fun d => d.addUse u := by
  have hvalues : ((g.values.modify old fun d => d.dropUse u).modify new fun d => d.addUse u).modify
      old (fun d => { d with uses := [] }) =
      (g.values.modify old fun d => { d with uses := [] }).modify new fun d => d.addUse u := by
    apply Table.ext_find?
    intro v
    simp only [Table.find?_modify]
    by_cases hold : v = old
    · have hnew : v ≠ new := hold ▸ hne
      rw [if_pos hold, if_neg hnew, if_pos hold, if_neg hnew, if_pos hold, Option.map_map]
      rfl
    · rw [if_neg hold, if_neg hold, if_neg hold]
  unfold withoutUses fillSlot modifyValue modifyOp
  simp only [hvalues]

/-! ## What filling a slot leaves alone -/

section Frames

variable (g : Graph V) (u : Use) (old new : Value)

@[simp] theorem origin?_fillSlot (v : Value) :
    (g.fillSlot u old new).origin? v = g.origin? v := by
  have hdrop : ∀ h : Graph V, (h.modifyValue old fun d => d.dropUse u).origin? v = h.origin? v :=
    fun h => origin?_modifyValue h (fun _ => by rfl) old v
  have hadd : ∀ h : Graph V, (h.modifyValue new fun d => d.addUse u).origin? v = h.origin? v :=
    fun h => origin?_modifyValue h (fun _ => by rfl) new v
  rw [fillSlot, hadd, hdrop]
  rfl

@[simp] theorem parent?_fillSlot (o : Op) : (g.fillSlot u old new).parent? o = g.parent? o :=
  parent?_modifyOp g (fun _ => by rfl) u.user o

@[simp] theorem regionsOf_fillSlot (o : Op) :
    (g.fillSlot u old new).regionsOf o = g.regionsOf o :=
  regionsOf_modifyOp g (fun _ => by rfl) u.user o

@[simp] theorem resultsOf_fillSlot (o : Op) :
    (g.fillSlot u old new).resultsOf o = g.resultsOf o :=
  resultsOf_modifyOp g (fun _ => by rfl) u.user o

@[simp] theorem table?_fillSlot (o : Op) : (g.fillSlot u old new).table? o = g.table? o :=
  table?_modifyOp g (fun _ => by rfl) u.user o

@[simp] theorem symbolName?_fillSlot (o : Op) :
    (g.fillSlot u old new).symbolName? o = g.symbolName? o :=
  symbolName?_modifyOp g (fun _ => by rfl) (fun _ => by rfl) u.user o

end Frames

end RegionIR.Graph
