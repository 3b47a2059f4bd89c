import RegionIR.Edit.Create
import RegionIR.Proofs.Graph.Views

/-!
# Making an operation

A new operation comes in two strokes.  First its results are put into the
graph, under consecutive new handles; then it is linked: each operand slot is
entered in a use list, each region names the operation, and the operation
itself appears.  Its parent block is not part of this: a new operation is
placed like any other one.

## Main results

* `Graph.find?_putResults_self`, `Graph.find?_putResults_of_ne` — the results
  are there and all other values are as before.
* `Graph.find?_values_linkOp`, `Graph.find?_regions_linkOp` — the entries that
  a new operation is linked to.
* `Graph.slot?_linkOp`, `Graph.uses?_linkOp`, `Graph.holder?_linkOp` — the
  links of a new operation, from both ends.
* `Graph.mem_slotsOf`, `Graph.nodup_slotsOf` — the slots that a new operation
  enters in one use list.
-/

namespace RegionIR

/-- The handles of consecutive new values. -/
def resultHandles (first count : Nat) : List Value :=
  (List.range count).map fun i => ⟨first + i⟩

theorem length_resultHandles {first count : Nat} : (resultHandles first count).length = count := by
  rw [resultHandles, List.length_map, List.length_range]

theorem getElem?_resultHandles {first count i : Nat} {v : Value} :
    (resultHandles first count)[i]? = some v ↔ i < count ∧ v = ⟨first + i⟩ := by
  rw [resultHandles, List.getElem?_map, Option.map_eq_some_iff]
  constructor
  · rintro ⟨j, hj, rfl⟩
    obtain ⟨hlt, rfl⟩ := List.getElem?_eq_some_iff.1 hj
    rw [List.length_range] at hlt
    exact ⟨hlt, by rw [List.getElem_range]⟩
  · rintro ⟨hlt, rfl⟩
    exact ⟨i, List.getElem?_range hlt, rfl⟩

/-- No handle stands at two positions. -/
theorem resultHandles_inj {first count i j : Nat} {v : Value}
    (hi : (resultHandles first count)[i]? = some v)
    (hj : (resultHandles first count)[j]? = some v) : i = j := by
  have heq := (getElem?_resultHandles.1 hi).2.symm.trans (getElem?_resultHandles.1 hj).2
  injection heq with heq
  omega

theorem mem_resultHandles {first count : Nat} {v : Value} :
    v ∈ resultHandles first count ↔ ∃ i < count, v = ⟨first + i⟩ := by
  rw [List.mem_iff_getElem?]
  exact exists_congr fun i => getElem?_resultHandles

namespace Graph

variable {V : Type}

/-! ## The results -/

/-- Puts the results of an operation into the graph. -/
def putResults (g : Graph V) (o : Op) (first : Nat) (types : List Ty) : Graph V :=
  { g with
    values := types.zipIdx.foldl
      (fun values ty => values.insert ⟨first + ty.2⟩ { ty := ty.1, origin := .result o ty.2 })
      g.values }

private theorem find?_foldl_insert_of_ne {o : Op} {first : Nat} {types : List Ty} {v : Value}
    (k : Nat) (t : Table Value ValueData) (h : ∀ i < types.length, v ≠ ⟨first + (k + i)⟩) :
    ((types.zipIdx k).foldl (fun values ty =>
      values.insert ⟨first + ty.2⟩ { ty := ty.1, origin := .result o ty.2 }) t).find? v =
      t.find? v := by
  induction types generalizing k t with
  | nil => rfl
  | cons ty rest ih =>
      rw [List.zipIdx_cons, List.foldl_cons, ih, Table.find?_insert, if_neg]
      · intro heq
        exact h 0 (by simp) heq.symm
      · intro i hi heq
        exact h (i + 1) (by simpa using hi) (by rw [heq, Nat.add_assoc k 1 i, Nat.add_comm 1 i])

private theorem find?_foldl_insert_self (o : Op) (first k : Nat) {i : Nat} {types : List Ty}
    {ty : Ty} (t : Table Value ValueData) (h : types[i]? = some ty) :
    ((types.zipIdx k).foldl (fun values ty =>
      values.insert ⟨first + ty.2⟩ { ty := ty.1, origin := .result o ty.2 }) t).find?
        ⟨first + (k + i)⟩ = some { ty := ty, origin := .result o (k + i) } := by
  induction types generalizing i k t with
  | nil => simp at h
  | cons ty' rest ih =>
      rw [List.zipIdx_cons, List.foldl_cons]
      cases i with
      | zero =>
          have hty : ty' = ty := by simpa using h
          rw [find?_foldl_insert_of_ne, Table.find?_insert, hty]
          · simp
          · intro i _ heq
            injection heq with heq
            omega
      | succ i =>
          have hrest : rest[i]? = some ty := by simpa using h
          have hnext := ih (k + 1) (t.insert ⟨first + k⟩ { ty := ty', origin := .result o k }) hrest
          rw [show k + 1 + i = k + (i + 1) by omega] at hnext
          exact hnext

/-- The value under the handle of a result. -/
theorem find?_putResults_self {types : List Ty} {i : Nat} {ty : Ty} (h : types[i]? = some ty)
    (g : Graph V) (o : Op) (first : Nat) :
    (g.putResults o first types).values.find? ⟨first + i⟩ =
      some { ty := ty, origin := .result o i } := by
  have hfind := find?_foldl_insert_self o first 0 g.values h
  rwa [Nat.zero_add] at hfind

theorem find?_putResults_of_ne {first : Nat} {types : List Ty} {v : Value}
    (h : v ∉ resultHandles first types.length) (g : Graph V) (o : Op) :
    (g.putResults o first types).values.find? v = g.values.find? v := by
  refine find?_foldl_insert_of_ne 0 g.values fun i hi heq => h ?_
  rw [Nat.zero_add] at heq
  exact mem_resultHandles.2 ⟨i, hi, heq⟩

theorem find?_putResults_of_mem {first : Nat} {types : List Ty} {v : Value}
    (h : v ∈ resultHandles first types.length) (g : Graph V) (o : Op) :
    ∃ i ty, (resultHandles first types.length)[i]? = some v ∧ types[i]? = some ty ∧
      (g.putResults o first types).values.find? v =
        some { ty := ty, origin := .result o i } := by
  obtain ⟨i, hi, rfl⟩ := mem_resultHandles.1 h
  have hty : types[i]? = some types[i] := List.getElem?_eq_getElem hi
  exact ⟨i, types[i], getElem?_resultHandles.2 ⟨hi, rfl⟩, hty, find?_putResults_self hty g o first⟩

theorem contains_putResults (g : Graph V) (o : Op) (first : Nat) (types : List Ty) (v : Value) :
    (g.putResults o first types).values.contains v = true ↔
      g.values.contains v = true ∨ v ∈ resultHandles first types.length := by
  by_cases h : v ∈ resultHandles first types.length
  · obtain ⟨i, ty, -, -, hfind⟩ := find?_putResults_of_mem h g o
    exact iff_of_true (Table.contains_iff.2 ⟨_, hfind⟩) (Or.inr h)
  · rw [Table.contains, find?_putResults_of_ne h, ← Table.contains, or_iff_left h]

theorem uses?_putResults (g : Graph V) (o : Op) (first : Nat) (types : List Ty) (v : Value) :
    (g.putResults o first types).uses? v =
      if v ∈ resultHandles first types.length then some [] else g.uses? v := by
  by_cases h : v ∈ resultHandles first types.length
  · obtain ⟨i, ty, -, -, hfind⟩ := find?_putResults_of_mem h g o
    rw [if_pos h, uses?_eq hfind]
  · rw [if_neg h, uses?, find?_putResults_of_ne h, uses?]

/-- Results that were put into the graph can be dropped again. -/
theorem foldl_erase_putResults {g : Graph V} {first : Nat} {types : List Ty}
    (hfresh : ∀ v ∈ resultHandles first types.length, g.values.find? v = none) (o : Op) :
    (resultHandles first types.length).foldl (fun t v => t.erase v)
      (g.putResults o first types).values = g.values := by
  apply Table.ext_find?
  intro v
  rw [Table.find?_foldl_erase]
  by_cases h : v ∈ resultHandles first types.length
  · rw [if_pos h, hfresh v h]
  · rw [if_neg h, find?_putResults_of_ne h]

/-! ## The links -/

/-- Links a new operation and puts it into the graph. -/
def linkOp (g : Graph V) (o : Op) (d : OpData V) : Graph V where
  values := d.operands.zipIdx.foldl
    (fun values v => values.modify v.1 fun e => e.addUse ⟨o, v.2⟩) g.values
  ops := g.ops.insert o d
  blocks := g.blocks
  regions := d.regions.foldl
    (fun regions r => regions.modify r fun e => { e with parent := some o }) g.regions

/-- The slots of an operation that hold a value, in the order of the slots. -/
def slotsOf (o : Op) (operands : List Value) (v : Value) : List Use :=
  (operands.zipIdx.filter fun a => a.1 = v).map fun a => ⟨o, a.2⟩

theorem mem_slotsOf {o : Op} {operands : List Value} {v : Value} {u : Use} :
    u ∈ slotsOf o operands v ↔ u.user = o ∧ operands[u.index]? = some v := by
  unfold slotsOf
  rw [List.mem_map]
  constructor
  · rintro ⟨⟨w, i⟩, ha, rfl⟩
    obtain ⟨hmem, heq⟩ := List.mem_filter.1 ha
    have hw : w = v := of_decide_eq_true heq
    exact ⟨rfl, hw ▸ List.mk_mem_zipIdx_iff_getElem?.1 hmem⟩
  · rintro ⟨rfl, hget⟩
    have hmem := List.mk_mem_zipIdx_iff_getElem?.2 hget
    exact ⟨(v, u.index), List.mem_filter.2 ⟨hmem, by simp⟩, rfl⟩

theorem nodup_slotsOf (o : Op) (operands : List Value) (v : Value) :
    (slotsOf o operands v).Nodup := by
  have hindex : (operands.zipIdx.map Prod.snd).Nodup := by
    rw [List.zipIdx_map_snd]
    exact List.nodup_range'
  have hsub : ((operands.zipIdx.filter fun a => a.1 = v).map Prod.snd).Nodup :=
    hindex.sublist (List.filter_sublist.map Prod.snd)
  unfold slotsOf
  rw [List.nodup_iff_pairwise_ne, List.pairwise_map] at hsub ⊢
  exact hsub.imp fun hne heq => hne (by injection heq)

private theorem foldl_addUse (o : Op) (l : List (Value × Nat)) (d : ValueData) :
    l.foldl (fun e a => e.addUse ⟨o, a.2⟩) d =
      { d with uses := d.uses ++ l.map fun a => ⟨o, a.2⟩ } := by
  induction l generalizing d with
  | nil => simp
  | cons a rest ih =>
      rw [List.foldl_cons, ih, ValueData.addUse, List.map_cons, List.append_assoc]
      rfl

variable (g : Graph V) (o : Op) (d : OpData V)

/-- A use list gets the slots of the new operation at its end. -/
theorem find?_values_linkOp (v : Value) : (g.linkOp o d).values.find? v =
    (g.values.find? v).map fun e => { e with uses := e.uses ++ slotsOf o d.operands v } := by
  unfold linkOp
  rw [Table.find?_foldl_modify]
  congr 1
  exact funext fun e => foldl_addUse o _ e

theorem uses?_linkOp (v : Value) :
    (g.linkOp o d).uses? v = (g.uses? v).map (· ++ slotsOf o d.operands v) := by
  unfold uses?
  rw [find?_values_linkOp, Option.map_map, Option.map_map]
  rfl

theorem origin?_linkOp (v : Value) : (g.linkOp o d).origin? v = g.origin? v := by
  unfold origin? linkOp
  exact Table.map_find?_foldl_modify (fun a e => by rw [ValueData.addUse]) g.values v

theorem slot?_linkOp (u : Use) :
    (g.linkOp o d).slot? u = if u.user = o then d.operands[u.index]? else g.slot? u := by
  unfold slot? linkOp
  rw [Table.find?_insert]
  by_cases h : u.user = o
  · rw [if_pos h.symm, if_pos h, Option.bind_some]
  · rw [if_neg (Ne.symm h), if_neg h]

theorem parent?_linkOp (o' : Op) :
    (g.linkOp o d).parent? o' = if o' = o then d.parent else g.parent? o' := by
  unfold parent? linkOp
  rw [Table.find?_insert]
  by_cases h : o' = o
  · rw [if_pos h.symm, if_pos h, Option.bind_some]
  · rw [if_neg (Ne.symm h), if_neg h]

theorem regionsOf_linkOp (o' : Op) :
    (g.linkOp o d).regionsOf o' = if o' = o then d.regions else g.regionsOf o' := by
  unfold regionsOf linkOp
  rw [Table.find?_insert]
  by_cases h : o' = o
  · rw [if_pos h.symm, if_pos h, Option.map_some, Option.getD_some]
  · rw [if_neg (Ne.symm h), if_neg h]

theorem resultsOf_linkOp (o' : Op) :
    (g.linkOp o d).resultsOf o' = if o' = o then d.results else g.resultsOf o' := by
  unfold resultsOf linkOp
  rw [Table.find?_insert]
  by_cases h : o' = o
  · rw [if_pos h.symm, if_pos h, Option.map_some, Option.getD_some]
  · rw [if_neg (Ne.symm h), if_neg h]

theorem blocksIn_linkOp (r : Region) : (g.linkOp o d).blocksIn r = g.blocksIn r := by
  refine congrArg (fun l : Option (List Block) => l.getD []) ?_
  exact Table.map_find?_foldl_modify (fun a e => by rfl) g.regions r

private theorem foldl_hold (l : List Region) (e : RegionData) :
    l.foldl (fun e (_ : Region) => { e with parent := some o }) e =
      if l = [] then e else { e with parent := some o } := by
  induction l generalizing e with
  | nil => rfl
  | cons r rest ih =>
      rw [List.foldl_cons, ih]
      simp

/-- The regions of the new operation name it as their parent. -/
theorem find?_regions_linkOp (r : Region) : (g.linkOp o d).regions.find? r =
    (g.regions.find? r).map fun e => if r ∈ d.regions then { e with parent := some o } else e := by
  unfold linkOp
  rw [Table.find?_foldl_modify]
  congr 1
  funext e
  rw [foldl_hold]
  by_cases h : r ∈ d.regions
  · have hne : (d.regions.filter fun a => a = r) ≠ [] :=
      List.ne_nil_of_mem (List.mem_filter.2 ⟨h, by simp⟩)
    rw [if_neg hne, if_pos h]
  · have hnil : (d.regions.filter fun a => a = r) = [] := by
      rw [List.filter_eq_nil_iff]
      intro a ha
      have hne : a ≠ r := fun heq => h (heq ▸ ha)
      simpa using hne
    rw [if_pos hnil, if_neg h]

variable {d} in
theorem holder?_linkOp (hlive : ∀ r ∈ d.regions, g.regions.contains r = true) (r : Region) :
    (g.linkOp o d).holder? r = if r ∈ d.regions then some o else g.holder? r := by
  unfold holder?
  rw [find?_regions_linkOp]
  by_cases h : r ∈ d.regions
  · obtain ⟨e, he⟩ := Table.contains_iff.1 (hlive r h)
    simp [h, he]
  · simp [h]

end Graph

end RegionIR
