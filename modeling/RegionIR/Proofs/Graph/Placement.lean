import RegionIR.Proofs.Graph.Views

/-!
# Placing and taking out

The two ends of a containment link change together: the list of the
container, and the container that the entry names.  Both placements are one
shape at two levels, operations in blocks and blocks in regions.

## Main results

* `Graph.mem_opsIn_placeOp`, `Graph.mem_opsIn_takeOp`, `Graph.mem_blocksIn_placeBlock`,
  `Graph.mem_blocksIn_takeBlock` — the list of the container.
* `Graph.parent?_placeOp`, `Graph.parent?_takeOp`, `Graph.owner?_placeBlock`,
  `Graph.owner?_takeBlock` — the container that the entry names.
* `Graph.takeOp_placeOp`, `Graph.placeOp_takeOp` — placing and taking out undo each other.
-/

namespace RegionIR

namespace Roster

variable {α : Type}

theorem ext_items {l l' : Roster α} (h : l.items = l'.items) : l = l' := by
  cases l
  cases l'
  cases h
  rfl

variable [DecidableEq α]

/-- The list with an entry inserted at a position; a listed entry stays where it is. -/
def place (l : Roster α) (i : Nat) (a : α) : Roster α :=
  match l.insertAt i a with
  | .ok l' => l'
  | .error _ => l

theorem items_place {l : Roster α} {a : α} (h : a ∉ l.items) (i : Nat) :
    (l.place i a).items = l.items.take i ++ a :: l.items.drop i := by
  obtain ⟨l', hl', hitems⟩ := items_insertAt (l := l) h i
  rw [place, hl']
  exact hitems

/-- An insertion that does not fail is `place`, of an entry that was not listed. -/
theorem insertAt_eq_ok {l l' : Roster α} {i : Nat} {a : α} (h : l.insertAt i a = .ok l') :
    a ∉ l.items ∧ l' = l.place i a := by
  constructor
  · intro hmem
    rw [insertAt_of_mem hmem i] at h
    cases h
  · rw [place, h]

/-- Appending is insertion at the position after the last entry. -/
theorem pushBack_eq_insertAt (l : Roster α) (a : α) : l.pushBack a = l.insertAt l.length a := by
  have hnone : l.at? l.length = none := by
    unfold at? length
    exact List.getElem?_eq_none (Nat.le_refl _)
  rw [insertAt, hnone]

theorem mem_place {l : Roster α} {a x : α} (h : a ∉ l.items) (i : Nat) :
    x ∈ (l.place i a).items ↔ x = a ∨ x ∈ l.items := by
  have hsplit : x ∈ l.items ↔ x ∈ l.items.take i ∨ x ∈ l.items.drop i := by
    rw [← List.mem_append, List.take_append_drop]
  rw [items_place h, List.mem_append, List.mem_cons, hsplit]
  grind

theorem mem_remove {l : Roster α} {a x : α} :
    x ∈ (l.remove a).items ↔ x ≠ a ∧ x ∈ l.items := by
  rw [items_remove]
  exact l.nodup.mem_erase_iff

theorem remove_of_not_mem {l : Roster α} {a : α} (h : a ∉ l.items) : l.remove a = l :=
  ext_items (List.erase_of_not_mem h)

theorem not_mem_remove (l : Roster α) (a : α) : a ∉ (l.remove a).items :=
  fun h => (mem_remove.1 h).1 rfl

/-- A placed entry stands at its position, unless the list ends before. -/
theorem getElem?_items_place {l : Roster α} {a : α} (h : a ∉ l.items) {i : Nat}
    (hi : i ≤ l.items.length) : (l.place i a).items[i]? = some a := by
  have hlength : (l.items.take i).length = i := List.length_take_of_le hi
  rw [items_place h, List.getElem?_append_right (Nat.le_of_eq hlength), hlength, Nat.sub_self]
  rfl

/-- The others keep their order when an entry is placed. -/
theorem remove_place {l : Roster α} {a : α} (h : a ∉ l.items) (i : Nat) :
    (l.place i a).remove a = l := by
  have hnot : a ∉ l.items.take i := fun hmem => h (List.mem_of_mem_take hmem)
  apply ext_items
  rw [items_remove, items_place h, List.erase_append_right _ hnot, List.erase_cons_head,
    List.take_append_drop]

/-- An entry that was taken out can be put back where it stood. -/
theorem place_remove {l : Roster α} {a : α} {i : Nat} (h : l.items[i]? = some a) :
    (l.remove a).place i a = l := by
  obtain ⟨hi, ha⟩ := List.getElem?_eq_some_iff.1 h
  obtain ⟨front, back, hitems, hlength⟩ :
      ∃ front back, l.items = front ++ a :: back ∧ front.length = i := by
    refine ⟨l.items.take i, l.items.drop (i + 1), ?_, List.length_take_of_le (Nat.le_of_lt hi)⟩
    rw [← ha, List.getElem_cons_drop, List.take_append_drop]
  have hnodup := l.nodup
  rw [hitems] at hnodup
  have hnot : a ∉ front :=
    fun hmem => (List.nodup_append.1 hnodup).2.2 a hmem a List.mem_cons_self rfl
  have hrest : (l.remove a).items = front ++ back := by
    rw [items_remove, hitems, List.erase_append_right _ hnot, List.erase_cons_head]
  apply ext_items
  rw [items_place (not_mem_remove l a), hrest, ← hlength, List.take_left, List.drop_left, hitems]

end Roster

namespace Graph

variable {V : Type}

/-! ## Operations in blocks -/

/-- Places an operation at a position of a block. -/
def placeOp (g : Graph V) (b : Block) (i : Nat) (o : Op) : Graph V :=
  (g.modifyBlock b fun d => { d with ops := d.ops.place i o }).modifyOp o
    fun d => { d with parent := some b }

/-- Takes an operation out of a block. -/
def takeOp (g : Graph V) (b : Block) (o : Op) : Graph V :=
  (g.modifyBlock b fun d => { d with ops := d.ops.remove o }).modifyOp o
    fun d => { d with parent := none }

theorem mem_opsIn_placeOp {g : Graph V} {b : Block} {o : Op} (hb : g.blocks.contains b = true)
    (ho : o ∉ g.opsIn b) (i : Nat) (b' : Block) (o' : Op) :
    o' ∈ (g.placeOp b i o).opsIn b' ↔ (o' = o ∧ b' = b) ∨ o' ∈ g.opsIn b' := by
  obtain ⟨d, hd⟩ := Table.contains_iff.1 hb
  have hlisted : o ∉ d.ops.items := by rwa [opsIn_eq hd] at ho
  simp only [placeOp, opsIn, blocks_modifyOp, blocks_modifyBlock, Table.find?_modify]
  by_cases h : b' = b
  · subst h
    simp [hd, Roster.mem_place hlisted]
  · simp [h]

theorem parent?_placeOp {g : Graph V} {o : Op} (ho : g.ops.contains o = true) (b : Block)
    (i : Nat) (o' : Op) :
    (g.placeOp b i o).parent? o' = if o' = o then some b else g.parent? o' := by
  obtain ⟨d, hd⟩ := Table.contains_iff.1 ho
  simp only [placeOp, parent?, ops_modifyOp, ops_modifyBlock, Table.find?_modify]
  by_cases h : o' = o
  · subst h
    simp [hd]
  · simp [h]

theorem mem_opsIn_takeOp (g : Graph V) (b b' : Block) (o o' : Op) :
    o' ∈ (g.takeOp b o).opsIn b' ↔ ¬(o' = o ∧ b' = b) ∧ o' ∈ g.opsIn b' := by
  simp only [takeOp, opsIn, blocks_modifyOp, blocks_modifyBlock, Table.find?_modify]
  by_cases h : b' = b
  · subst h
    cases g.blocks.find? b' <;> simp [Roster.mem_remove]
  · simp [h]

theorem parent?_takeOp (g : Graph V) (b : Block) (o o' : Op) :
    (g.takeOp b o).parent? o' = if o' = o then none else g.parent? o' := by
  simp only [takeOp, parent?, ops_modifyOp, ops_modifyBlock, Table.find?_modify]
  by_cases h : o' = o
  · subst h
    cases g.ops.find? o' <;> simp
  · simp [h]

theorem parent?_takeOp_self (g : Graph V) (b : Block) (o : Op) :
    (g.takeOp b o).parent? o = none := by
  rw [parent?_takeOp, if_pos rfl]

/-- An insertion that does not fail is the placement of an operation that was not listed. -/
theorem placeOp_of_insertAt {g : Graph V} {b : Block} {d : BlockData} {i : Nat} {o : Op}
    {ops : Roster Op} (hd : g.blocks.find? b = some d) (hops : d.ops.insertAt i o = .ok ops) :
    (g.modifyBlock b fun e => { e with ops := ops }).modifyOp o
      (fun e => { e with parent := some b }) = g.placeOp b i o := by
  have hblocks : (g.blocks.modify b fun e => { e with ops := ops }) =
      g.blocks.modify b fun e => { e with ops := e.ops.place i o } := by
    refine Table.modify_congr fun e he => ?_
    cases hd.symm.trans he
    rw [(Roster.insertAt_eq_ok hops).2]
  unfold placeOp modifyBlock
  rw [hblocks]

/-! ## Placing and taking out undo each other -/

/-- A change of a list and of a link is undone by a second one. -/
private theorem modify_modify_eq_self {g : Graph V} {b : Block} {o : Op}
    (f f' : Roster Op → Roster Op) {parent parent' : Option Block}
    (hops : ∀ d, g.blocks.find? b = some d → f' (f d.ops) = d.ops)
    (hparent : ∀ d, g.ops.find? o = some d → d.parent = parent') :
    (((g.modifyBlock b fun d => { d with ops := f d.ops }).modifyOp o
      fun d => { d with parent := parent }).modifyBlock b
        fun d => { d with ops := f' d.ops }).modifyOp o
          (fun d => { d with parent := parent' }) = g := by
  refine (Graph.mk.injEq ..).mpr
    ⟨rfl, Table.ext_find? fun x => ?_, Table.ext_find? fun x => ?_, rfl⟩
  · simp only [ops_modifyOp, ops_modifyBlock, Table.find?_modify]
    by_cases h : x = o
    · subst h
      cases hd : g.ops.find? x with
      | none => simp
      | some d => simp [← hparent d hd]
    · simp [h]
  · simp only [blocks_modifyOp, blocks_modifyBlock, Table.find?_modify]
    by_cases h : x = b
    · subst h
      cases hd : g.blocks.find? x with
      | none => simp
      | some d => simp [hops d hd]
    · simp [h]

theorem takeOp_placeOp {g : Graph V} {b : Block} {o : Op} (hfree : g.parent? o = none)
    (ho : o ∉ g.opsIn b) (i : Nat) : (g.placeOp b i o).takeOp b o = g := by
  refine modify_modify_eq_self (·.place i o) (·.remove o) (fun d hd => ?_) fun d hd => ?_
  · apply Roster.remove_place
    rwa [opsIn_eq hd] at ho
  · rwa [parent?_eq hd] at hfree

theorem placeOp_takeOp {g : Graph V} {b : Block} {o : Op} {i : Nat}
    (hparent : g.parent? o = some b) (hi : (g.opsIn b)[i]? = some o) :
    (g.takeOp b o).placeOp b i o = g := by
  refine modify_modify_eq_self (·.remove o) (·.place i o) (fun d hd => ?_) fun d hd => ?_
  · apply Roster.place_remove
    rwa [opsIn_eq hd] at hi
  · rwa [parent?_eq hd] at hparent

/-! ## Blocks in regions -/

/-- Places a block at a position of a region. -/
def placeBlock (g : Graph V) (r : Region) (i : Nat) (b : Block) : Graph V :=
  (g.modifyRegion r fun d => { d with blocks := d.blocks.place i b }).modifyBlock b
    fun d => { d with owner := some r }

/-- Takes a block out of a region. -/
def takeBlock (g : Graph V) (r : Region) (b : Block) : Graph V :=
  (g.modifyRegion r fun d => { d with blocks := d.blocks.remove b }).modifyBlock b
    fun d => { d with owner := none }

theorem mem_blocksIn_placeBlock {g : Graph V} {r : Region} {b : Block}
    (hr : g.regions.contains r = true) (hb : b ∉ g.blocksIn r) (i : Nat) (r' : Region)
    (b' : Block) :
    b' ∈ (g.placeBlock r i b).blocksIn r' ↔ (b' = b ∧ r' = r) ∨ b' ∈ g.blocksIn r' := by
  obtain ⟨d, hd⟩ := Table.contains_iff.1 hr
  have hlisted : b ∉ d.blocks.items := by rwa [blocksIn_eq hd] at hb
  simp only [placeBlock, blocksIn, regions_modifyBlock, regions_modifyRegion,
    Table.find?_modify]
  by_cases h : r' = r
  · subst h
    simp [hd, Roster.mem_place hlisted]
  · simp [h]

theorem owner?_placeBlock {g : Graph V} {b : Block} (hb : g.blocks.contains b = true)
    (r : Region) (i : Nat) (b' : Block) :
    (g.placeBlock r i b).owner? b' = if b' = b then some r else g.owner? b' := by
  obtain ⟨d, hd⟩ := Table.contains_iff.1 hb
  simp only [placeBlock, owner?, blocks_modifyBlock, blocks_modifyRegion, Table.find?_modify]
  by_cases h : b' = b
  · subst h
    simp [hd]
  · simp [h]

theorem mem_blocksIn_takeBlock (g : Graph V) (r r' : Region) (b b' : Block) :
    b' ∈ (g.takeBlock r b).blocksIn r' ↔ ¬(b' = b ∧ r' = r) ∧ b' ∈ g.blocksIn r' := by
  simp only [takeBlock, blocksIn, regions_modifyBlock, regions_modifyRegion,
    Table.find?_modify]
  by_cases h : r' = r
  · subst h
    cases g.regions.find? r' <;> simp [Roster.mem_remove]
  · simp [h]

theorem owner?_takeBlock (g : Graph V) (r : Region) (b b' : Block) :
    (g.takeBlock r b).owner? b' = if b' = b then none else g.owner? b' := by
  simp only [takeBlock, owner?, blocks_modifyBlock, blocks_modifyRegion, Table.find?_modify]
  by_cases h : b' = b
  · subst h
    cases g.blocks.find? b' <;> simp
  · simp [h]

theorem placeBlock_of_insertAt {g : Graph V} {r : Region} {d : RegionData} {i : Nat} {b : Block}
    {blocks : Roster Block} (hd : g.regions.find? r = some d)
    (hblocks : d.blocks.insertAt i b = .ok blocks) :
    (g.modifyRegion r fun e => { e with blocks := blocks }).modifyBlock b
      (fun e => { e with owner := some r }) = g.placeBlock r i b := by
  have hregions : (g.regions.modify r fun e => { e with blocks := blocks }) =
      g.regions.modify r fun e => { e with blocks := e.blocks.place i b } := by
    refine Table.modify_congr fun e he => ?_
    cases hd.symm.trans he
    rw [(Roster.insertAt_eq_ok hblocks).2]
  unfold placeBlock modifyRegion
  rw [hregions]

/-! ## What placing and taking leave alone -/

section Frames

variable (g : Graph V) (b : Block) (i : Nat) (o : Op) (r : Region)

@[simp] theorem slot?_placeOp (u : Use) : (g.placeOp b i o).slot? u = g.slot? u :=
  slot?_modifyOp (g.modifyBlock b _) (fun _ => by rfl) o u

@[simp] theorem regionsOf_placeOp (o' : Op) : (g.placeOp b i o).regionsOf o' = g.regionsOf o' :=
  regionsOf_modifyOp (g.modifyBlock b _) (fun _ => by rfl) o o'

@[simp] theorem resultsOf_placeOp (o' : Op) : (g.placeOp b i o).resultsOf o' = g.resultsOf o' :=
  resultsOf_modifyOp (g.modifyBlock b _) (fun _ => by rfl) o o'

@[simp] theorem table?_placeOp (o' : Op) : (g.placeOp b i o).table? o' = g.table? o' :=
  table?_modifyOp (g.modifyBlock b _) (fun _ => by rfl) o o'

@[simp] theorem symbolName?_placeOp (o' : Op) :
    (g.placeOp b i o).symbolName? o' = g.symbolName? o' :=
  symbolName?_modifyOp (g.modifyBlock b _) (fun _ => by rfl) (fun _ => by rfl) o o'

@[simp] theorem argsOf_placeOp (b' : Block) : (g.placeOp b i o).argsOf b' = g.argsOf b' :=
  argsOf_modifyBlock g (fun _ => by rfl) b b'

@[simp] theorem owner?_placeOp (b' : Block) : (g.placeOp b i o).owner? b' = g.owner? b' :=
  owner?_modifyBlock g (fun _ => by rfl) b b'

@[simp] theorem slot?_takeOp (u : Use) : (g.takeOp b o).slot? u = g.slot? u :=
  slot?_modifyOp (g.modifyBlock b _) (fun _ => by rfl) o u

@[simp] theorem regionsOf_takeOp (o' : Op) : (g.takeOp b o).regionsOf o' = g.regionsOf o' :=
  regionsOf_modifyOp (g.modifyBlock b _) (fun _ => by rfl) o o'

@[simp] theorem resultsOf_takeOp (o' : Op) : (g.takeOp b o).resultsOf o' = g.resultsOf o' :=
  resultsOf_modifyOp (g.modifyBlock b _) (fun _ => by rfl) o o'

@[simp] theorem table?_takeOp (o' : Op) : (g.takeOp b o).table? o' = g.table? o' :=
  table?_modifyOp (g.modifyBlock b _) (fun _ => by rfl) o o'

@[simp] theorem symbolName?_takeOp (o' : Op) :
    (g.takeOp b o).symbolName? o' = g.symbolName? o' :=
  symbolName?_modifyOp (g.modifyBlock b _) (fun _ => by rfl) (fun _ => by rfl) o o'

@[simp] theorem argsOf_takeOp (b' : Block) : (g.takeOp b o).argsOf b' = g.argsOf b' :=
  argsOf_modifyBlock g (fun _ => by rfl) b b'

@[simp] theorem owner?_takeOp (b' : Block) : (g.takeOp b o).owner? b' = g.owner? b' :=
  owner?_modifyBlock g (fun _ => by rfl) b b'

@[simp] theorem opsIn_placeBlock (b' : Block) : (g.placeBlock r i b).opsIn b' = g.opsIn b' :=
  opsIn_modifyBlock (g.modifyRegion r _) (fun _ => by rfl) b b'

@[simp] theorem argsOf_placeBlock (b' : Block) : (g.placeBlock r i b).argsOf b' = g.argsOf b' :=
  argsOf_modifyBlock (g.modifyRegion r _) (fun _ => by rfl) b b'

@[simp] theorem holder?_placeBlock (r' : Region) :
    (g.placeBlock r i b).holder? r' = g.holder? r' :=
  holder?_modifyRegion g (fun _ => by rfl) r r'

@[simp] theorem opsIn_takeBlock (b' : Block) : (g.takeBlock r b).opsIn b' = g.opsIn b' :=
  opsIn_modifyBlock (g.modifyRegion r _) (fun _ => by rfl) b b'

@[simp] theorem argsOf_takeBlock (b' : Block) : (g.takeBlock r b).argsOf b' = g.argsOf b' :=
  argsOf_modifyBlock (g.modifyRegion r _) (fun _ => by rfl) b b'

@[simp] theorem holder?_takeBlock (r' : Region) :
    (g.takeBlock r b).holder? r' = g.holder? r' :=
  holder?_modifyRegion g (fun _ => by rfl) r r'

end Frames

end Graph

end RegionIR
