import RegionIR.Proofs.Graph.Arguments
import RegionIR.Proofs.Graph.Creation
import RegionIR.Proofs.Graph.Erasure
import RegionIR.Proofs.Graph.Operands

/-!
# Use lists agree with operand slots

Every use edge is stored twice, in an operand slot and in the use list of the
value.  Dropping an edge from a use list ignores an edge that is not there,
and adding one does not ask whether it is there already, so neither a lost
nor a doubled edge shows where it arises.  The invariant therefore needs all
three of its parts at once: that the edges agree, that no list repeats one,
and that the value of a slot exists.

## Main results

* `Graph.UsesMatch` — the invariant.
* `UsesMatch.putArgument`, `UsesMatch.fillSlot`, `UsesMatch.putResults`,
  `UsesMatch.linkOp`, `UsesMatch.prune` — the changes that touch a use edge.
* `UsesMatch.congr` — all other changes.
-/

namespace RegionIR.Graph

variable {V : Type}

/-- Use lists hold exactly the slots that hold their value, each once. -/
structure UsesMatch (g : Graph V) : Prop where
  live : ∀ {u v}, g.slot? u = some v → ∃ l, g.uses? v = some l
  mem : ∀ {v l u}, g.uses? v = some l → (u ∈ l ↔ g.slot? u = some v)
  nodup : ∀ {v l}, g.uses? v = some l → l.Nodup

namespace UsesMatch

variable {g g' : Graph V}

theorem empty : UsesMatch (Graph.empty : Graph V) where
  live := by
    intro u v h
    cases h
  mem := by
    intro v l u h
    cases h
  nodup := by
    intro v l h
    cases h

/-- A change that keeps slots and use lists keeps their agreement. -/
theorem congr (h : UsesMatch g) (hslot : ∀ u, g'.slot? u = g.slot? u)
    (huses : ∀ v, g'.uses? v = g.uses? v) : UsesMatch g' where
  live := by
    intro u v hv
    rw [hslot] at hv
    rw [huses]
    exact h.live hv
  mem := by
    intro v l u hl
    rw [huses] at hl
    rw [hslot]
    exact h.mem hl
  nodup := by
    intro v l hl
    rw [huses] at hl
    exact h.nodup hl

/-- No slot holds a value that is not in the graph. -/
theorem slot?_ne_of_missing (h : UsesMatch g) {v : Value} (hv : g.values.find? v = none)
    (u : Use) : g.slot? u ≠ some v := by
  intro hslot
  obtain ⟨l, hl⟩ := h.live hslot
  rw [uses?_eq_none hv] at hl
  cases hl

/-- What a slot holds is in the graph. -/
theorem contains_of_slot? (h : UsesMatch g) {u : Use} {v : Value} (hslot : g.slot? u = some v) :
    g.values.contains v = true := by
  obtain ⟨l, hl⟩ := h.live hslot
  obtain ⟨e, he, -⟩ := Option.map_eq_some_iff.1 hl
  exact Table.contains_iff.2 ⟨e, he⟩

theorem contains_operand (h : UsesMatch g) {o : Op} {d : OpData V} (hd : g.ops.find? o = some d)
    {v : Value} (hv : v ∈ d.operands) : g.values.contains v = true := by
  obtain ⟨i, hi⟩ := List.mem_iff_getElem?.1 hv
  exact h.contains_of_slot? ((slot?_eq hd i).trans hi)

/-- New values without uses may appear. -/
theorem of_new_values (h : UsesMatch g) {new : Value → Prop} [DecidablePred new]
    (hslot : ∀ u, g'.slot? u = g.slot? u)
    (huses : ∀ v, g'.uses? v = if new v then some [] else g.uses? v)
    (hfresh : ∀ v, new v → g.values.find? v = none) : UsesMatch g' where
  live := by
    intro u v hv
    rw [hslot] at hv
    rw [huses]
    split
    · exact ⟨[], rfl⟩
    · exact h.live hv
  mem := by
    intro v l u hl
    rw [hslot]
    rw [huses] at hl
    split at hl
    · rename_i hnew
      cases hl
      have hnot := h.slot?_ne_of_missing (hfresh v hnew) u
      simp [hnot]
    · exact h.mem hl
  nodup := by
    intro v l hl
    rw [huses] at hl
    split at hl
    · cases hl
      exact List.nodup_nil
    · exact h.nodup hl

theorem putArgument (h : UsesMatch g) {arg : Value} (hfresh : g.values.find? arg = none)
    (b : Block) (i : Nat) (ty : Ty) : UsesMatch (g.putArgument b i arg ty) :=
  h.of_new_values (fun _ => rfl) (uses?_putArgument g b i arg ty) fun _ hv => hv ▸ hfresh

theorem dropArgument (h : UsesMatch g) (b : Block) (i : Nat) (arg : Value) :
    UsesMatch (g.dropArgument b i arg) :=
  h.congr (fun _ => rfl) (uses?_dropArgument g b i arg)

/-! ## Operands -/

/-- The edge moves from the old value to the new one, also if they are the same. -/
theorem fillSlot (h : UsesMatch g) {u : Use} {old new : Value} (hold : g.slot? u = some old)
    (hnew : g.values.contains new = true) : UsesMatch (g.fillSlot u old new) where
  live := by
    intro u' v hv
    rw [slot?_fillSlot hold] at hv
    rw [uses?_fillSlot]
    have hsome : ∃ l, g.uses? v = some l := by
      split at hv
      · cases hv
        obtain ⟨d, hd⟩ := Table.contains_iff.1 hnew
        exact ⟨d.uses, uses?_eq hd⟩
      · exact h.live hv
    obtain ⟨l, hl⟩ := hsome
    rw [hl]
    exact ⟨_, rfl⟩
  mem := by
    intro v l u' hl
    rw [uses?_fillSlot] at hl
    obtain ⟨l₀, hl₀, rfl⟩ := Option.map_eq_some_iff.1 hl
    have hedge : u ∈ l₀ ↔ v = old := by
      rw [h.mem hl₀, hold, Option.some.injEq, eq_comm]
    rw [mem_usesAfter (h.nodup hl₀) hedge, slot?_fillSlot hold, h.mem hl₀]
    by_cases hu : u' = u
    · simp [hu, eq_comm]
    · simp [hu]
  nodup := by
    intro v l hl
    rw [uses?_fillSlot] at hl
    obtain ⟨l₀, hl₀, rfl⟩ := Option.map_eq_some_iff.1 hl
    have hedge : u ∈ l₀ ↔ v = old := by
      rw [h.mem hl₀, hold, Option.some.injEq, eq_comm]
    exact nodup_usesAfter (h.nodup hl₀) hedge

/-! ## Creation -/

theorem putResults (h : UsesMatch g) {first : Nat} {types : List Ty}
    (hfresh : ∀ v ∈ resultHandles first types.length, g.values.find? v = none) (o : Op) :
    UsesMatch (g.putResults o first types) :=
  h.of_new_values (fun _ => rfl) (uses?_putResults g o first types) hfresh

/-- A new operation enters its slots; it may use its own results. -/
theorem linkOp (h : UsesMatch g) {o : Op} {d : OpData V} (ho : g.ops.find? o = none)
    (hoperands : ∀ v ∈ d.operands, g.values.contains v = true) : UsesMatch (g.linkOp o d) where
  live := by
    intro u v hv
    rw [slot?_linkOp] at hv
    rw [uses?_linkOp]
    have hsome : ∃ l, g.uses? v = some l := by
      split at hv
      · obtain ⟨e, he⟩ := Table.contains_iff.1 (hoperands v (List.mem_of_getElem? hv))
        exact ⟨e.uses, uses?_eq he⟩
      · exact h.live hv
    obtain ⟨l, hl⟩ := hsome
    rw [hl]
    exact ⟨_, rfl⟩
  mem := by
    intro v l u hl
    rw [uses?_linkOp] at hl
    obtain ⟨l₀, hl₀, rfl⟩ := Option.map_eq_some_iff.1 hl
    rw [slot?_linkOp, List.mem_append, h.mem hl₀, mem_slotsOf]
    by_cases hu : u.user = o
    · have hnone : g.slot? u = none := slot?_eq_none (hu ▸ ho)
      simp [hu, hnone]
    · simp [hu]
  nodup := by
    intro v l hl
    rw [uses?_linkOp] at hl
    obtain ⟨l₀, hl₀, rfl⟩ := Option.map_eq_some_iff.1 hl
    refine List.nodup_append.2 ⟨h.nodup hl₀, nodup_slotsOf o d.operands v, ?_⟩
    intro u hu u' hu' heq
    subst heq
    have hslot := (h.mem hl₀).1 hu
    rw [slot?_eq_none ((mem_slotsOf.1 hu').1 ▸ ho)] at hslot
    cases hslot

/-! ## Erasure -/

/-- Where no edge leads out of the produced values, a subtree can be cut out. -/
theorem prune (h : UsesMatch g) {t : Subtree} {produced : List Value}
    (hinside : ∀ {v l}, v ∈ produced → g.uses? v = some l → ∀ u ∈ l, u.user ∈ t.ops) (o : Op) :
    UsesMatch (g.prune o t produced) where
  live := by
    intro u v hv
    rw [slot?_prune] at hv
    split at hv
    · cases hv
    · rename_i hout
      obtain ⟨l, hl⟩ := h.live hv
      have hstays : v ∉ produced := fun hmem => hout (hinside hmem hl u ((h.mem hl).2 hv))
      rw [uses?_prune, if_neg hstays, hl]
      exact ⟨_, rfl⟩
  mem := by
    intro v l u hl
    rw [uses?_prune] at hl
    split at hl
    · cases hl
    · obtain ⟨l₀, hl₀, rfl⟩ := Option.map_eq_some_iff.1 hl
      rw [slot?_prune, List.mem_filter, h.mem hl₀]
      by_cases hu : u.user ∈ t.ops <;> simp [hu]
  nodup := by
    intro v l hl
    rw [uses?_prune] at hl
    split at hl
    · cases hl
    · obtain ⟨l₀, hl₀, rfl⟩ := Option.map_eq_some_iff.1 hl
      exact (h.nodup hl₀).sublist List.filter_sublist

end UsesMatch

end RegionIR.Graph
