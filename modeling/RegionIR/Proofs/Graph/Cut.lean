import RegionIR.Proofs.Graph.Subtrees

/-!
# Cutting out collections

`Graph.prune` cuts out a subtree, and the root of it leaves its block as the
only operation of that block to go.  The same cut can be said without a root:
every table drops what is gone, and every entry that stays forgets the
operations that are gone, whatever they are.  Said like this a cut is no longer
about one subtree, and two of them in a row are one.

What matters about a collection is what it holds.  Two walks may collect the
same entities in different orders, and the cut is the same.

## Main results

* `Graph.cut`, `Graph.prune_eq_cut` — the cut without a root.
* `Graph.cut_cut` — two cuts in a row.
* `Graph.cut_congr` — the order of a collection does not matter.
* `Graph.holds_prune_iff`, `Graph.within_prune_iff` — the nesting that is left.
-/

namespace RegionIR

/-! ## Tables and entries -/

namespace Table

variable {κ β : Type} [OrderedKey κ]

theorem filterValues_filterValues (t : Table κ β) (p q : β → Bool) :
    (t.filterValues p).filterValues q = t.filterValues fun x => p x && q x := by
  apply ext_find?
  intro k
  rw [find?_filterValues, find?_filterValues, find?_filterValues, Option.filter_filter]

theorem filterValues_eq_self {t : Table κ β} {p : β → Bool}
    (h : ∀ k x, t.find? k = some x → p x = true) : t.filterValues p = t := by
  apply ext_find?
  intro k
  rw [find?_filterValues]
  cases hx : t.find? k with
  | none => rfl
  | some x => rw [Option.filter_some, if_pos (h k x hx)]

/-- The table without some keys; the entries that stay are changed. -/
def cut (t : Table κ β) (gone : List κ) (f : β → β) : Table κ β :=
  (t.mapValues fun _ => f).filterKeys fun k => decide (k ∉ gone)

theorem find?_cut (t : Table κ β) (gone : List κ) (f : β → β) (k : κ) :
    (t.cut gone f).find? k = if k ∈ gone then none else (t.find? k).map f := by
  rw [cut, find?_filterKeys, find?_mapValues]
  by_cases h : k ∈ gone <;> simp [h]

theorem cut_cut (t : Table κ β) (gone gone' : List κ) (f f' : β → β) :
    (t.cut gone f).cut gone' f' = t.cut (gone ++ gone') fun x => f' (f x) := by
  apply ext_find?
  intro k
  rw [find?_cut, find?_cut, find?_cut]
  by_cases h : k ∈ gone
  · simp [h]
  · by_cases h' : k ∈ gone'
    · simp [h']
    · simp [h, h', Function.comp_def]

theorem cut_congr (t : Table κ β) {gone gone' : List κ} (h : ∀ k, k ∈ gone ↔ k ∈ gone')
    (f : β → β) : t.cut gone f = t.cut gone' f := by
  apply ext_find?
  intro k
  rw [find?_cut, find?_cut]
  simp only [h]

end Table

namespace Roster

variable {α : Type}

/-- The entries that pass a test, in their order. -/
def filter (l : Roster α) (p : α → Bool) : Roster α := ⟨l.items.filter p, l.nodup.filter p⟩

end Roster

section Forget

variable {V : Type} {gone gone' : List Op}

theorem decide_not_mem_append (o : Op) :
    decide (o ∉ gone ++ gone') = (decide (o ∉ gone) && decide (o ∉ gone')) := by
  rw [← Bool.decide_and]
  simp only [List.mem_append, not_or]

/-- A use list without the slots of operations that are gone. -/
def ValueData.forget (d : ValueData) (gone : List Op) : ValueData :=
  { d with uses := d.uses.filter fun u => decide (u.user ∉ gone) }

/-- A symbol table without the names of operations that are gone. -/
def OpData.forget (d : OpData V) (gone : List Op) : OpData V :=
  { d with symbols := d.symbols.map fun names => names.filterValues fun o => decide (o ∉ gone) }

/-- A block without the operations that are gone. -/
def BlockData.forget (d : BlockData) (gone : List Op) : BlockData :=
  { d with ops := d.ops.filter fun o => decide (o ∉ gone) }

theorem ValueData.forget_forget (d : ValueData) :
    (d.forget gone).forget gone' = d.forget (gone ++ gone') := by
  unfold forget
  simp only [List.filter_filter, decide_not_mem_append, Bool.and_comm]

theorem OpData.forget_forget (d : OpData V) :
    (d.forget gone).forget gone' = d.forget (gone ++ gone') := by
  unfold forget
  simp only [Option.map_map, Function.comp_def, Table.filterValues_filterValues,
    decide_not_mem_append]

theorem BlockData.forget_forget (d : BlockData) :
    (d.forget gone).forget gone' = d.forget (gone ++ gone') := by
  unfold forget Roster.filter
  simp only [List.filter_filter, decide_not_mem_append, Bool.and_comm]

/-- A block that forgets operations has the list that is left of its own. -/
theorem BlockData.forget_eq {d : BlockData} {ops ops' : Roster Op}
    (h : ops.items.filter (fun o => decide (o ∉ gone)) = ops'.items) :
    ({ d with ops := ops } : BlockData).forget gone = { d with ops := ops' } := by
  rw [forget]
  congr 1
  exact Roster.ext_items h

end Forget

namespace Graph

variable {V : Type} {g : Graph V} {o : Op} {t t' : Subtree} {produced produced' : List Value}

/-! ## The cut without a root -/

/-- The graph without a collection and the values it produces. -/
def cut (g : Graph V) (t : Subtree) (produced : List Value) : Graph V where
  values := g.values.cut produced fun d => d.forget t.ops
  ops := g.ops.cut t.ops fun d => d.forget t.ops
  blocks := g.blocks.cut t.blocks fun d => d.forget t.ops
  regions := g.regions.cut t.regions id

/-- Two cuts in a row are one. -/
theorem cut_cut (g : Graph V) (t t' : Subtree) (produced produced' : List Value) :
    (g.cut t produced).cut t' produced' = g.cut (t.append t') (produced ++ produced') := by
  unfold cut Subtree.append
  simp only [Table.cut_cut, ValueData.forget_forget, OpData.forget_forget,
    BlockData.forget_forget]
  rfl

/-- The order of a collection does not matter, nor does it matter what is in it twice. -/
theorem cut_congr (g : Graph V) (ht : ∀ x, t.Contains x ↔ t'.Contains x)
    (hproduced : ∀ v, v ∈ produced ↔ v ∈ produced') : g.cut t produced = g.cut t' produced' := by
  have hops : ∀ o, o ∈ t.ops ↔ o ∈ t'.ops := fun o => ht (.op o)
  have hblocks : ∀ b, b ∈ t.blocks ↔ b ∈ t'.blocks := fun b => ht (.block b)
  have hregions : ∀ r, r ∈ t.regions ↔ r ∈ t'.regions := fun r => ht (.region r)
  unfold cut
  rw [Table.cut_congr _ hproduced, Table.cut_congr _ hops, Table.cut_congr _ hblocks,
    Table.cut_congr _ hregions]
  simp only [ValueData.forget, OpData.forget, BlockData.forget, hops]

theorem cut_append_comm (g : Graph V) (t t' : Subtree) (produced produced' : List Value) :
    g.cut (t.append t') (produced ++ produced') = g.cut (t'.append t) (produced' ++ produced) := by
  refine g.cut_congr (fun x => ?_) fun v => ?_
  · rw [Subtree.contains_append, Subtree.contains_append, or_comm]
  · rw [List.mem_append, List.mem_append, or_comm]

theorem Owned.prune_eq_cut (h : g.Owned) (ht : g.Hangs o t) (produced : List Value) :
    g.prune o t produced = g.cut t produced := by
  refine ext_find? (fun x => ?ops) (fun v => ?values) (fun b => ?blocks) fun r => ?regions
  case ops => exact (find?_ops_prune g o t produced x).trans (Table.find?_cut ..).symm
  case values => exact (find?_values_prune g o t produced v).trans (Table.find?_cut ..).symm
  case regions =>
    rw [find?_regions_prune, cut, Table.find?_cut, Option.map_id]
    rfl
  case blocks =>
    rw [find?_blocks_prune, cut, Table.find?_cut]
    refine ite_congr rfl (fun _ => rfl) fun hb => Option.map_congr fun d hd => ?_
    -- Of the operations in a block that stays, only the root can be in the subtree.
    have hroot : ∀ x ∈ d.ops.items, x ∈ t.ops ↔ x = o := by
      intro x hx
      rw [← opsIn_eq hd] at hx
      refine ⟨fun hin => ?_, fun heq => heq ▸ ht.root⟩
      exact Decidable.byContradiction fun hne =>
        hb ((h.mem_ops_iff ht (h.op.1 hx) hne).1 hin)
    have hitems : d.ops.items.filter (fun x => decide (x ∉ t.ops)) = d.ops.items.erase o := by
      rw [d.ops.nodup.erase_eq_filter]
      refine List.filter_congr fun x hx => ?_
      rw [Bool.eq_iff_iff]
      simp [hroot x hx]
    have hforget : d.forget t.ops = { d with ops := d.ops.remove o } :=
      BlockData.forget_eq hitems
    rw [hforget]
    split
    · rfl
    · rename_i hparent
      rw [← h.op, opsIn_eq hd] at hparent
      rw [Roster.remove_of_not_mem hparent]

/-! ## The nesting that is left -/

theorem Hangs.contains_of_holds (ht : g.Hangs o t) {x y : Node} (hx : t.Contains x)
    (hxy : g.Holds x y) : t.Contains y := by
  cases hxy with
  | op hmem => exact ht.ops_down hx hmem
  | block hmem => exact ht.blocks_down hx hmem
  | region hmem => exact ht.regions_down hx hmem

/-- A cut drops just the edges to what is gone. -/
theorem holds_prune_iff (h : g.Owned) (ht : g.Hangs o t) (produced : List Value) {x y : Node} :
    (g.prune o t produced).Holds x y ↔ g.Holds x y ∧ ¬ t.Contains y := by
  constructor
  · intro hxy
    cases hxy with
    | @op b o' hmem =>
        obtain ⟨hb, hroot, hlisted⟩ := (mem_opsIn_prune g o t produced b o').1 hmem
        refine ⟨.op hlisted, fun hin => hb ?_⟩
        have hparent := h.op.1 hlisted
        exact (h.mem_ops_iff ht hparent fun heq => hroot ⟨heq, heq ▸ hparent⟩).1 hin
    | @block r b hmem =>
        rw [blocksIn_prune] at hmem
        split at hmem
        · cases hmem
        · rename_i hr
          exact ⟨.block hmem, mt (h.mem_blocks_iff ht (h.block.1 hmem)).1 hr⟩
    | @region o' r hmem =>
        rw [regionsOf_prune] at hmem
        split at hmem
        · cases hmem
        · rename_i ho'
          exact ⟨.region hmem, mt (h.mem_regions_iff ht (h.region.1 hmem)).1 ho'⟩
  · rintro ⟨hxy, hy⟩
    have hx : ¬ t.Contains x := fun hx => hy (ht.contains_of_holds hx hxy)
    cases hxy with
    | op hmem =>
        refine .op ((mem_opsIn_prune ..).2 ⟨hx, fun hroot => hy ?_, hmem⟩)
        exact hroot.1 ▸ ht.root
    | @block r b hmem =>
        have hr : r ∉ t.regions := hx
        refine .block ?_
        rw [blocksIn_prune, if_neg hr]
        exact hmem
    | @region o' r hmem =>
        have ho' : o' ∉ t.ops := hx
        refine .region ?_
        rw [regionsOf_prune, if_neg ho']
        exact hmem

/-- What is nested in an entity that stays is nested in it still, unless it is gone. -/
theorem within_prune_iff (h : g.Owned) (ht : g.Hangs o t) (produced : List Value) {x z : Node}
    (hz : ¬ t.Contains z) :
    (g.prune o t produced).Within x z ↔ g.Within x z ∧ ¬ t.Contains x := by
  constructor
  · intro hin
    induction hin with
    | refl => exact ⟨.refl, hz⟩
    | tail _ hlast ih =>
        obtain ⟨hhold, hx⟩ := (holds_prune_iff h ht produced).1 hlast
        exact ⟨ih.1.tail hhold, hx⟩
  · rintro ⟨hin, hx⟩
    induction hin with
    | refl => exact .refl
    | tail _ hlast ih =>
        have hy := mt (fun hy => ht.contains_of_holds hy hlast) hx
        exact (ih hy).tail ((holds_prune_iff h ht produced).2 ⟨hlast, hx⟩)

end Graph

end RegionIR
