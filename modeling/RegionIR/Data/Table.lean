/-!
# Ordered finite maps

A `Table κ β` is a finite map kept as a list of entries with strictly
ascending keys. Two tables with the same contents are the same list, so
"the graph is as it was before" is plain equality, and reading a table in
order needs no sorting.

The operations are first defined on entry lists and then bundled with the
order. None of the look-up laws needs the order except those of `erase`
and `filter`, where a second entry of the same key would come to light.

## Main results

* `Table.find?_insert`, `Table.find?_erase`, `Table.find?_modify`,
  `Table.find?_filter` — what each operation does to every look-up.
* `Table.ext_find?` — tables that answer all look-ups alike are equal.
-/

namespace RegionIR

/-- Keys with a decidable strict linear order. -/
class OrderedKey (κ : Type) extends LT κ where
  decEq : DecidableEq κ
  decLT : DecidableRel (fun a b : κ => a < b)
  irrefl : ∀ a : κ, ¬ a < a
  trans : ∀ {a b c : κ}, a < b → b < c → a < c
  connected : ∀ {a b : κ}, ¬ a < b → ¬ b < a → a = b

attribute [reducible, instance] OrderedKey.decEq OrderedKey.decLT

/-- Texts are ordered by code point, which is the order of their UTF-8 bytes. -/
instance : OrderedKey String where
  decEq := inferInstance
  decLT := fun a b => inferInstanceAs (Decidable (a < b))
  irrefl := String.lt_irrefl
  trans := String.lt_trans
  connected := fun h₁ h₂ =>
    String.le_antisymm (String.not_lt.1 h₂) (String.not_lt.1 h₁)

namespace Entries

variable {κ β : Type} [OrderedKey κ]

/-- Keys rise strictly along the list. -/
def Ascending (l : List (κ × β)) : Prop :=
  l.Pairwise fun a b => a.1 < b.1

instance (l : List (κ × β)) : Decidable (Ascending l) := by
  unfold Ascending; infer_instance

/-- The value of the first entry of a key. -/
def find? (k : κ) : List (κ × β) → Option β
  | [] => none
  | e :: rest => if e.1 = k then some e.2 else find? k rest

/-- Places an entry in order, in the place of an entry of the same key. -/
def insert (k : κ) (x : β) : List (κ × β) → List (κ × β)
  | [] => [(k, x)]
  | e :: rest =>
    if k < e.1 then (k, x) :: e :: rest
    else if e.1 = k then (k, x) :: rest
    else e :: insert k x rest

theorem mem_insert {k : κ} {x : β} {a : κ × β} {l : List (κ × β)} :
    a ∈ insert k x l → a = (k, x) ∨ a ∈ l := by
  induction l with
  | nil => simp [insert]
  | cons e rest ih =>
    simp only [insert]
    split
    · simp
    · split
      · intro h
        cases List.mem_cons.1 h with
        | inl h => exact Or.inl h
        | inr h => exact Or.inr (List.mem_cons_of_mem _ h)
      · intro h
        cases List.mem_cons.1 h with
        | inl h => exact Or.inr (h ▸ List.mem_cons_self)
        | inr h =>
          cases ih h with
          | inl h => exact Or.inl h
          | inr h => exact Or.inr (List.mem_cons_of_mem _ h)

theorem Ascending.insert {k : κ} {x : β} {l : List (κ × β)} (h : Ascending l) :
    Ascending (insert k x l) := by
  induction l with
  | nil => simp [Entries.insert, Ascending]
  | cons e rest ih =>
    have hrest : Ascending rest := List.Pairwise.of_cons h
    have hlt : ∀ a ∈ rest, e.1 < a.1 := fun a ha => List.rel_of_pairwise_cons h ha
    simp only [Entries.insert]
    split
    · rename_i hk
      refine List.Pairwise.cons (fun a ha => ?_) h
      cases List.mem_cons.1 ha with
      | inl ha => exact ha ▸ hk
      | inr ha => exact OrderedKey.trans hk (hlt a ha)
    · split
      · rename_i _ he
        exact List.Pairwise.cons (fun a ha => he ▸ hlt a ha) hrest
      · rename_i hk he
        refine List.Pairwise.cons (fun a ha => ?_) (ih hrest)
        cases mem_insert ha with
        | inr ha => exact hlt a ha
        | inl ha =>
          rw [ha]
          apply Classical.byContradiction
          intro hn
          exact he (OrderedKey.connected hn hk)

theorem find?_insert (k k' : κ) (x : β) (l : List (κ × β)) :
    find? k' (insert k x l) = if k = k' then some x else find? k' l := by
  induction l with
  | nil => simp [insert, find?]
  | cons e rest ih =>
    simp only [insert]
    split
    · simp [find?]
    · split
      · rename_i _ he
        simp only [find?]
        split
        · rfl
        · rename_i hk
          rw [if_neg (fun h => hk (he ▸ h))]
      · rename_i _ he
        simp only [find?, ih]
        split
        · rename_i hk
          rw [if_neg (fun h => he (hk.trans h.symm))]
        · rfl

theorem find?_eq_none_of_lt {k : κ} {l : List (κ × β)} (h : ∀ a ∈ l, k < a.1) :
    find? k l = none := by
  induction l with
  | nil => rfl
  | cons e rest ih =>
    have he : ¬ e.1 = k := fun hk => OrderedKey.irrefl k (by
      have := h e List.mem_cons_self
      rwa [hk] at this)
    simp only [find?, if_neg he]
    exact ih fun a ha => h a (List.mem_cons_of_mem _ ha)

theorem find?_eq_some_iff {k : κ} {x : β} {l : List (κ × β)} (h : Ascending l) :
    find? k l = some x ↔ (k, x) ∈ l := by
  induction l with
  | nil => simp [find?]
  | cons e rest ih =>
    have hlt : ∀ a ∈ rest, e.1 < a.1 := fun a ha => List.rel_of_pairwise_cons h ha
    simp only [find?]
    split
    · rename_i he
      constructor
      · intro hx
        injection hx with hx
        exact List.mem_cons.2 (Or.inl (by rw [← he, ← hx]))
      · intro hm
        cases List.mem_cons.1 hm with
        | inl hm => rw [← hm]
        | inr hm =>
          have := hlt _ hm
          rw [he] at this
          exact absurd this (OrderedKey.irrefl k)
    · rename_i he
      rw [ih (List.Pairwise.of_cons h), List.mem_cons]
      constructor
      · exact Or.inr
      · intro hm
        cases hm with
        | inl hm => exact absurd (by rw [← hm]) he
        | inr hm => exact hm

theorem find?_filter {p : κ → Bool} (k : κ) {l : List (κ × β)} (h : Ascending l) :
    find? k (l.filter fun e => p e.1) = if p k then find? k l else none := by
  induction l with
  | nil => simp [find?]
  | cons e rest ih =>
    have ih := ih (List.Pairwise.of_cons h)
    by_cases he : e.1 = k
    · subst he
      cases hp : p e.1 with
      | true => simp [List.filter, hp, find?]
      | false =>
        have hnone : find? e.1 rest = none :=
          find?_eq_none_of_lt fun a ha => List.rel_of_pairwise_cons h ha
        simp [List.filter, hp, ih]
    · cases hp : p e.1 with
      | true => simp [List.filter, hp, find?, he, ih]
      | false => simp [List.filter, hp, find?, he, ih]

theorem find?_mapValues {γ : Type} (f : κ → β → γ) (k : κ) (l : List (κ × β)) :
    find? k (l.map fun e => (e.1, f e.1 e.2)) = (find? k l).map (f k) := by
  induction l with
  | nil => rfl
  | cons e rest ih =>
    simp only [List.map, find?]
    split
    · rename_i he
      simp [← he]
    · exact ih

theorem ext_find? {l₁ l₂ : List (κ × β)} (h₁ : Ascending l₁) (h₂ : Ascending l₂)
    (h : ∀ k, find? k l₁ = find? k l₂) : l₁ = l₂ := by
  induction l₁ generalizing l₂ with
  | nil =>
    cases l₂ with
    | nil => rfl
    | cons e rest => simpa [find?] using h e.1
  | cons e rest ih =>
    cases l₂ with
    | nil => simpa [find?] using h e.1
    | cons e' rest' =>
      have hlt : ∀ a ∈ rest, e.1 < a.1 := fun a ha => List.rel_of_pairwise_cons h₁ ha
      have hlt' : ∀ a ∈ rest', e'.1 < a.1 := fun a ha => List.rel_of_pairwise_cons h₂ ha
      have hmem : (e.1, e.2) ∈ e' :: rest' := by
        rw [← find?_eq_some_iff h₂, ← h, find?_eq_some_iff h₁]
        exact List.mem_cons_self
      have hmem' : (e'.1, e'.2) ∈ e :: rest := by
        rw [← find?_eq_some_iff h₁, h, find?_eq_some_iff h₂]
        exact List.mem_cons_self
      have he : e = e' := by
        cases List.mem_cons.1 hmem with
        | inl hm => exact hm
        | inr hm =>
          cases List.mem_cons.1 hmem' with
          | inl hm' => exact hm'.symm
          | inr hm' =>
            exact absurd (OrderedKey.trans (hlt _ hm') (hlt' _ hm)) (OrderedKey.irrefl _)
      subst he
      refine congrArg (e :: ·) (ih (List.Pairwise.of_cons h₁) (List.Pairwise.of_cons h₂) ?_)
      intro k
      by_cases hk : e.1 = k
      · subst hk
        rw [find?_eq_none_of_lt hlt, find?_eq_none_of_lt hlt']
      · simpa [find?, hk] using h k

end Entries

/-- A finite map with its entries in ascending order of their keys. -/
structure Table (κ β : Type) [OrderedKey κ] where
  entries : List (κ × β)
  ascending : Entries.Ascending entries

namespace Table

variable {κ β : Type} [OrderedKey κ]

instance [DecidableEq β] : DecidableEq (Table κ β) := fun s t =>
  if h : s.entries = t.entries then
    isTrue (by cases s; cases t; cases h; rfl)
  else
    isFalse fun heq => h (heq ▸ rfl)

/-- The map without entries. -/
def empty : Table κ β := ⟨[], List.Pairwise.nil⟩

instance : EmptyCollection (Table κ β) := ⟨empty⟩

instance : Inhabited (Table κ β) := ⟨empty⟩

def find? (t : Table κ β) (k : κ) : Option β := Entries.find? k t.entries

def contains (t : Table κ β) (k : κ) : Bool := (t.find? k).isSome

def size (t : Table κ β) : Nat := t.entries.length

def isEmpty (t : Table κ β) : Bool := t.entries.isEmpty

/-- The keys in ascending order. -/
def keys (t : Table κ β) : List κ := t.entries.map Prod.fst

/-- Binds a key, in the place of its former value if it has one. -/
def insert (t : Table κ β) (k : κ) (x : β) : Table κ β :=
  ⟨Entries.insert k x t.entries, t.ascending.insert⟩

/-- Keeps the entries whose keys pass a test. -/
def filterKeys (t : Table κ β) (p : κ → Bool) : Table κ β :=
  ⟨t.entries.filter fun e => p e.1, t.ascending.sublist List.filter_sublist⟩

/-- Drops a key; a key that is not bound is no matter. -/
def erase (t : Table κ β) (k : κ) : Table κ β :=
  t.filterKeys fun k' => !decide (k' = k)

/-- Keeps the entries whose values pass a test. -/
def filterValues (t : Table κ β) (p : β → Bool) : Table κ β :=
  ⟨t.entries.filter fun e => p e.2, t.ascending.sublist List.filter_sublist⟩

/-- Changes every value, given its key. -/
def mapValues {γ : Type} (t : Table κ β) (f : κ → β → γ) : Table κ γ :=
  ⟨t.entries.map fun e => (e.1, f e.1 e.2), by
    rw [Entries.Ascending, List.pairwise_map]
    exact t.ascending⟩

/-- Changes the value of one key; nothing happens if it is not bound. -/
def modify (t : Table κ β) (k : κ) (f : β → β) : Table κ β :=
  t.mapValues fun k' x => if k' = k then f x else x

/-- The table of a list of entries; of two with one key the later stays. -/
def ofList (l : List (κ × β)) : Table κ β :=
  l.foldl (fun t e => t.insert e.1 e.2) empty

@[simp] theorem find?_empty (k : κ) : (empty : Table κ β).find? k = none := rfl

theorem find?_insert (t : Table κ β) (k k' : κ) (x : β) :
    (t.insert k x).find? k' = if k = k' then some x else t.find? k' :=
  Entries.find?_insert k k' x t.entries

theorem find?_filterKeys (t : Table κ β) (p : κ → Bool) (k : κ) :
    (t.filterKeys p).find? k = if p k then t.find? k else none :=
  Entries.find?_filter k t.ascending

theorem find?_erase (t : Table κ β) (k k' : κ) :
    (t.erase k).find? k' = if k' = k then none else t.find? k' := by
  rw [erase, find?_filterKeys]
  by_cases h : k' = k <;> simp [h]

theorem find?_mapValues {γ : Type} (t : Table κ β) (f : κ → β → γ) (k : κ) :
    (t.mapValues f).find? k = (t.find? k).map (f k) :=
  Entries.find?_mapValues f k t.entries

theorem find?_modify (t : Table κ β) (k k' : κ) (f : β → β) :
    (t.modify k f).find? k' = if k' = k then (t.find? k').map f else t.find? k' := by
  rw [modify, find?_mapValues]
  by_cases h : k' = k
  · simp [h]
  · simp [h]

theorem mem_entries_iff (t : Table κ β) (k : κ) (x : β) :
    (k, x) ∈ t.entries ↔ t.find? k = some x :=
  (Entries.find?_eq_some_iff t.ascending).symm

theorem find?_filterValues (t : Table κ β) (p : β → Bool) (k : κ) :
    (t.filterValues p).find? k = (t.find? k).filter p := by
  apply Option.ext
  intro x
  rw [← mem_entries_iff, Option.filter_eq_some_iff, ← mem_entries_iff]
  simp [filterValues]

theorem ext_find? {s t : Table κ β} (h : ∀ k, s.find? k = t.find? k) : s = t := by
  have := Entries.ext_find? s.ascending t.ascending h
  cases s; cases t; cases this; rfl

end Table

end RegionIR
