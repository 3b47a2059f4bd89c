import RegionIR.Fault

/-!
# Ordered lists without repetition

A `Roster α` holds the order of the operations of a block, or of the blocks
of a region. Positions are not stored: an entry finds its place next to an
anchor, the entry that stands at the wanted position before the insertion.

## Main results

* `Roster.items_insertAt` — insertion at a position splits the list there.
* `Roster.insertAt_of_mem` — a listed entry is never inserted again.
-/

namespace RegionIR

/-- A list in which every entry stands once. The program takes its lists from a library, and this is
what is assumed of them: an entry goes right before the anchor that it is given, or behind the last
entry, and the others keep their order; an entry that is listed already is refused, which is a fault
of whoever inserts it. -/
structure Roster (α : Type) where
  items : List α
  nodup : items.Nodup
  deriving DecidableEq

namespace Roster

variable {α : Type}

/-- The list without entries. -/
def empty : Roster α := ⟨[], List.nodup_nil⟩

instance : EmptyCollection (Roster α) := ⟨empty⟩

instance : Inhabited (Roster α) := ⟨empty⟩

instance : Membership α (Roster α) := ⟨fun l a => a ∈ l.items⟩

theorem mem_def {a : α} {l : Roster α} : a ∈ l ↔ a ∈ l.items := Iff.rfl

def length (l : Roster α) : Nat := l.items.length

def isEmpty (l : Roster α) : Bool := l.items.isEmpty

def front? (l : Roster α) : Option α := l.items.head?

def back? (l : Roster α) : Option α := l.items.getLast?

/-- The entry at a position. -/
def at? (l : Roster α) (i : Nat) : Option α := l.items[i]?

variable [DecidableEq α]

instance (a : α) (l : Roster α) : Decidable (a ∈ l) :=
  inferInstanceAs (Decidable (a ∈ l.items))

/-- Drops an entry; one that is not listed is no matter. -/
def remove (l : Roster α) (a : α) : Roster α :=
  ⟨l.items.erase a, l.nodup.erase a⟩

/-- The list `items` with `a` placed before the first `anchor`. -/
def placeBefore (anchor a : α) : List α → List α
  | [] => []
  | x :: rest => if x = anchor then a :: x :: rest else x :: placeBefore anchor a rest

theorem mem_placeBefore {anchor a b : α} {items : List α} :
    b ∈ placeBefore anchor a items → b = a ∨ b ∈ items := by
  induction items with
  | nil => simp [placeBefore]
  | cons x rest ih =>
    simp only [placeBefore]
    split
    · simp
    · intro h
      cases List.mem_cons.1 h with
      | inl h => exact Or.inr (h ▸ List.mem_cons_self)
      | inr h => exact (ih h).imp_right (List.mem_cons_of_mem _)

theorem nodup_placeBefore {anchor a : α} {items : List α} (h : items.Nodup)
    (ha : a ∉ items) : (placeBefore anchor a items).Nodup := by
  induction items with
  | nil => simp [placeBefore]
  | cons x rest ih =>
    have hx : x ∉ rest := (List.nodup_cons.1 h).1
    have hrest : rest.Nodup := (List.nodup_cons.1 h).2
    simp only [placeBefore]
    split
    · exact List.nodup_cons.2 ⟨ha, h⟩
    · refine List.nodup_cons.2 ⟨fun hm => ?_, ih hrest fun hm => ha (List.mem_cons_of_mem _ hm)⟩
      cases mem_placeBefore hm with
      | inl hm => exact ha (hm ▸ List.mem_cons_self)
      | inr hm => exact hx hm

/-- The anchor at position `i` of a list without repetition splits it at `i`. -/
theorem placeBefore_getElem {a : α} {items : List α} (h : items.Nodup) (i : Nat)
    (hi : i < items.length) :
    placeBefore items[i] a items = items.take i ++ a :: items.drop i := by
  induction items generalizing i with
  | nil => simp at hi
  | cons x rest ih =>
    cases i with
    | zero => simp [placeBefore]
    | succ i =>
      have hi : i < rest.length := by simpa using hi
      have hne : x ≠ rest[i] := fun heq =>
        (List.nodup_cons.1 h).1 (heq ▸ List.getElem_mem hi)
      simp [placeBefore, hne, ih (List.nodup_cons.1 h).2 i hi]

/-- Places an entry before an anchor. -/
def insertBefore (l : Roster α) (anchor a : α) : Except Fault (Roster α) :=
  if h : a ∈ l.items then .error .alreadyListed
  else .ok ⟨placeBefore anchor a l.items, nodup_placeBefore l.nodup h⟩

/-- Places an entry at the end. -/
def pushBack (l : Roster α) (a : α) : Except Fault (Roster α) :=
  if h : a ∈ l.items then .error .alreadyListed
  else .ok ⟨l.items ++ [a], by
    refine List.nodup_append.2 ⟨l.nodup, List.pairwise_singleton _ a, ?_⟩
    intro x hx y hy heq
    rw [List.mem_singleton] at hy
    exact h (hy ▸ heq ▸ hx)⟩

/-- Places an entry at a position, at the end if the list is not that long. -/
def insertAt (l : Roster α) (i : Nat) (a : α) : Except Fault (Roster α) :=
  match l.at? i with
  | some anchor => l.insertBefore anchor a
  | none => l.pushBack a

theorem insertAt_of_mem {l : Roster α} {a : α} (h : a ∈ l) (i : Nat) :
    l.insertAt i a = .error .alreadyListed := by
  have h : a ∈ l.items := h
  unfold insertAt
  split <;> simp [insertBefore, pushBack, h]

theorem items_insertAt {l : Roster α} {a : α} (h : a ∉ l) (i : Nat) :
    ∃ l', l.insertAt i a = .ok l' ∧
      l'.items = l.items.take i ++ a :: l.items.drop i := by
  have h : a ∉ l.items := h
  unfold insertAt
  split
  · rename_i anchor heq
    obtain ⟨hi, rfl⟩ := List.getElem?_eq_some_iff.1 heq
    exact ⟨⟨placeBefore l.items[i] a l.items, nodup_placeBefore l.nodup h⟩,
      by simp [insertBefore, h], placeBefore_getElem l.nodup i hi⟩
  · rename_i heq
    have hi : l.items.length ≤ i := List.getElem?_eq_none_iff.1 heq
    refine ⟨_, dif_neg h, ?_⟩
    simp [List.take_of_length_le hi, List.drop_of_length_le hi]

theorem items_remove (l : Roster α) (a : α) : (l.remove a).items = l.items.erase a := rfl

end Roster

end RegionIR
