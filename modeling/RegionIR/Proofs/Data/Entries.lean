import RegionIR.Handle

/-!
# Look-ups after a series of changes

Edits change tables one entry at a time.  This module says what a look-up
sees after a change and after a fold of changes, so that later modules can
speak about look-ups alone.

## Main results

* `Table.map_find?_modify` — a component that a change keeps reads as before.
* `Table.find?_foldl_modify` — one entry after a fold of changes.
-/

namespace RegionIR.Table

variable {κ β γ α : Type} [OrderedKey κ]

theorem contains_iff {t : Table κ β} {k : κ} : t.contains k = true ↔ ∃ x, t.find? k = some x := by
  unfold contains
  rw [Option.isSome_iff_exists]

theorem contains_eq_false_iff {t : Table κ β} {k : κ} :
    t.contains k = false ↔ t.find? k = none := by
  unfold contains
  rw [Option.isSome_eq_false_iff, Option.isNone_iff_eq_none]

theorem mem_keys_iff {t : Table κ β} {k : κ} : k ∈ t.keys ↔ ∃ x, t.find? k = some x := by
  unfold keys
  rw [List.mem_map]
  constructor
  · rintro ⟨⟨k', x⟩, hmem, rfl⟩
    exact ⟨x, (t.mem_entries_iff k' x).1 hmem⟩
  · rintro ⟨x, hx⟩
    exact ⟨(k, x), (t.mem_entries_iff k x).2 hx, rfl⟩

theorem length_keys (t : Table κ β) : t.keys.length = t.size := by
  simp [keys, size]

/-- A condition on the entry of a key, where the entry is known. -/
theorem exists_find?_iff {t : Table κ β} {k : κ} {x : β} (h : t.find? k = some x)
    {P : β → Prop} : (∃ y, t.find? k = some y ∧ P y) ↔ P x := by
  simp [h]

/-! ## One change -/

/-- An entry that is there is changed in its place. -/
theorem insert_eq_modify {t : Table κ β} {k : κ} {x : β} (h : t.find? k = some x) (f : β → β) :
    t.insert k (f x) = t.modify k f := by
  apply ext_find?
  intro k'
  rw [find?_insert, find?_modify]
  by_cases hk : k' = k
  · subst hk
    simp [h]
  · rw [if_neg (Ne.symm hk), if_neg hk]

theorem contains_insert {t : Table κ β} {k k' : κ} {x : β} :
    (t.insert k x).contains k' = true ↔ k' = k ∨ t.contains k' = true := by
  rw [contains, find?_insert]
  split
  · rename_i heq
    simp [heq]
  · rename_i hne
    simp [Ne.symm hne, contains]

/-- Dropping a new entry again leaves the table as it was. -/
theorem erase_insert {t : Table κ β} {k : κ} (h : t.find? k = none) (x : β) :
    (t.insert k x).erase k = t := by
  apply ext_find?
  intro k'
  rw [find?_erase]
  by_cases heq : k' = k
  · rw [if_pos heq, heq, h]
  · rw [if_neg heq, find?_insert, if_neg (Ne.symm heq)]

/-- What a change does elsewhere than in the entry does not matter. -/
theorem modify_congr {t : Table κ β} {k : κ} {f f' : β → β}
    (h : ∀ x, t.find? k = some x → f x = f' x) : t.modify k f = t.modify k f' := by
  apply ext_find?
  intro k'
  rw [find?_modify, find?_modify]
  by_cases hk : k' = k
  · subst hk
    cases hx : t.find? k' with
    | none => rfl
    | some x => simp [h x hx]
  · rw [if_neg hk, if_neg hk]

theorem contains_modify (t : Table κ β) (k k' : κ) (f : β → β) :
    (t.modify k f).contains k' = t.contains k' := by
  unfold contains
  rw [find?_modify]
  split
  · exact Option.isSome_map
  · rfl

/-- A component that the change keeps reads as before in every entry. -/
theorem map_find?_modify {f : β → β} {p : β → γ} (h : ∀ x, p (f x) = p x) (t : Table κ β)
    (k k' : κ) : ((t.modify k f).find? k').map p = (t.find? k').map p := by
  rw [find?_modify]
  split
  · rw [Option.map_map]
    congr 1
    exact funext h
  · rfl

theorem bind_find?_modify {f : β → β} {p : β → Option γ} (h : ∀ x, p (f x) = p x)
    (t : Table κ β) (k k' : κ) : ((t.modify k f).find? k').bind p = (t.find? k').bind p := by
  rw [find?_modify]
  split
  · rw [Option.bind_map]
    congr 1
    exact funext h
  · rfl

/-! ## A fold of changes -/

/-- The entry of a key collects, in order, the changes that name the key. -/
theorem find?_foldl_modify (l : List α) (key : α → κ) (f : α → β → β) (t : Table κ β) (k : κ) :
    (l.foldl (fun t a => t.modify (key a) (f a)) t).find? k =
      (t.find? k).map fun x => (l.filter fun a => key a = k).foldl (fun x a => f a x) x := by
  induction l generalizing t with
  | nil => simp
  | cons a rest ih =>
      rw [List.foldl_cons, ih, find?_modify]
      by_cases hk : key a = k
      · rw [if_pos hk.symm, Option.map_map, List.filter_cons_of_pos (by simpa using hk)]
        rfl
      · rw [if_neg (Ne.symm hk), List.filter_cons_of_neg (by simpa using hk)]

/-- Keys that the folded changes do not name keep their entries. -/
theorem find?_foldl_modify_of_ne (l : List α) (key : α → κ) (f : α → β → β) (t : Table κ β)
    (k : κ) (h : ∀ a ∈ l, key a ≠ k) :
    (l.foldl (fun t a => t.modify (key a) (f a)) t).find? k = t.find? k := by
  have hnil : (l.filter fun a => key a = k) = [] := by
    rw [List.filter_eq_nil_iff]
    intro a ha
    simpa using h a ha
  rw [find?_foldl_modify, hnil]
  exact Option.map_id_apply

/-- A component that every folded change keeps reads as before. -/
theorem map_find?_foldl_modify {l : List α} {key : α → κ} {f : α → β → β} {p : β → γ}
    (h : ∀ a x, p (f a x) = p x) (t : Table κ β) (k : κ) :
    ((l.foldl (fun t a => t.modify (key a) (f a)) t).find? k).map p = (t.find? k).map p := by
  induction l generalizing t with
  | nil => rfl
  | cons a rest ih => rw [List.foldl_cons, ih, map_find?_modify (h a)]

theorem find?_foldl_erase (l : List κ) (t : Table κ β) (k : κ) :
    (l.foldl (fun t k' => t.erase k') t).find? k = if k ∈ l then none else t.find? k := by
  induction l generalizing t with
  | nil => simp
  | cons k' rest ih =>
      rw [List.foldl_cons, ih, find?_erase]
      by_cases hrest : k ∈ rest
      · simp [hrest]
      · by_cases hk : k = k' <;> simp [hrest, hk]

/-- A fold of changes neither adds nor drops a key. -/
theorem contains_foldl_modify (l : List α) (key : α → κ) (f : α → β → β) (t : Table κ β) (k : κ) :
    (l.foldl (fun t a => t.modify (key a) (f a)) t).contains k = t.contains k := by
  rw [contains, find?_foldl_modify, Option.isSome_map, contains]

end RegionIR.Table
