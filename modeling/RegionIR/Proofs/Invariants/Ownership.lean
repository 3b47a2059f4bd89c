import RegionIR.Proofs.Graph.Creation
import RegionIR.Proofs.Graph.Erasure

/-!
# Ownership links agree with containment

An operation names a block as its parent exactly where the block lists it,
and likewise for blocks in regions and regions of operations.  Since views of
a missing handle are empty, each of the three equivalences also says that
both of its ends are in the graph.

## Main results

* `Graph.Owned` — the invariant.
* `Owned.placeOp`, `Owned.takeOp`, `Owned.placeBlock`, `Owned.takeBlock`,
  `Owned.linkOp`, `Owned.prune` — the changes that touch an ownership link.
* `Owned.congr` — all other changes.
-/

namespace RegionIR.Graph

variable {V : Type}

/-- Both ends of every ownership link agree, and no region is listed twice. -/
structure Owned (g : Graph V) : Prop where
  op : ∀ {o b}, o ∈ g.opsIn b ↔ g.parent? o = some b
  block : ∀ {b r}, b ∈ g.blocksIn r ↔ g.owner? b = some r
  region : ∀ {r o}, r ∈ g.regionsOf o ↔ g.holder? r = some o
  nodup : ∀ o, (g.regionsOf o).Nodup

namespace Owned

variable {g g' : Graph V}

theorem empty : Owned (Graph.empty : Graph V) where
  op := by
    intro o b
    constructor <;> intro h <;> cases h
  block := by
    intro b r
    constructor <;> intro h <;> cases h
  region := by
    intro r o
    constructor <;> intro h <;> cases h
  nodup _ := List.nodup_nil

/-- A change that keeps the six views keeps ownership. -/
theorem congr (h : Owned g) (hparent : ∀ o, g'.parent? o = g.parent? o)
    (hops : ∀ b, g'.opsIn b = g.opsIn b) (howner : ∀ b, g'.owner? b = g.owner? b)
    (hblocks : ∀ r, g'.blocksIn r = g.blocksIn r) (hholder : ∀ r, g'.holder? r = g.holder? r)
    (hregions : ∀ o, g'.regionsOf o = g.regionsOf o) : Owned g' where
  op := by
    intro o b
    rw [hops, hparent]
    exact h.op
  block := by
    intro b r
    rw [hblocks, howner]
    exact h.block
  region := by
    intro r o
    rw [hregions, hholder]
    exact h.region
  nodup o := by
    rw [hregions]
    exact h.nodup o

/-! ## Containers are in the graph, and so is what they list -/

theorem block_of_parent? (h : Owned g) {o : Op} {b : Block} (ho : g.parent? o = some b) :
    g.blocks.contains b = true :=
  contains_of_mem_opsIn (h.op.2 ho)

theorem region_of_owner? (h : Owned g) {b : Block} {r : Region} (hb : g.owner? b = some r) :
    g.regions.contains r = true :=
  contains_of_mem_blocksIn (h.block.2 hb)

theorem op_of_holder? (h : Owned g) {r : Region} {o : Op} (hr : g.holder? r = some o) :
    g.ops.contains o = true :=
  contains_of_mem_regionsOf (h.region.2 hr)

/-- An operation that is not in the graph holds no region. -/
theorem holder?_ne (h : Owned g) {o : Op} (ho : g.ops.find? o = none) (r : Region) :
    g.holder? r ≠ some o := by
  intro hr
  obtain ⟨d, hd⟩ := Table.contains_iff.1 (h.op_of_holder? hr)
  rw [ho] at hd
  cases hd

theorem op_of_mem_opsIn (h : Owned g) {b : Block} {o : Op} (ho : o ∈ g.opsIn b) :
    g.ops.contains o = true :=
  contains_of_parent? (h.op.1 ho)

theorem block_of_mem_blocksIn (h : Owned g) {r : Region} {b : Block} (hb : b ∈ g.blocksIn r) :
    g.blocks.contains b = true :=
  contains_of_owner? (h.block.1 hb)

theorem region_of_mem_regionsOf (h : Owned g) {o : Op} {r : Region} (hr : r ∈ g.regionsOf o) :
    g.regions.contains r = true :=
  contains_of_holder? (h.region.1 hr)

/-! ## Operations in blocks -/

/-- An operation without a parent is in no block. -/
theorem not_mem_opsIn (h : Owned g) {o : Op} (hfree : g.parent? o = none) (b : Block) :
    o ∉ g.opsIn b := by
  intro hmem
  rw [h.op, hfree] at hmem
  cases hmem

theorem placeOp (h : Owned g) {b : Block} {o : Op} (hb : g.blocks.contains b = true)
    (ho : g.ops.contains o = true) (hfree : g.parent? o = none) (i : Nat) :
    Owned (g.placeOp b i o) where
  op := by
    intro o' b'
    rw [mem_opsIn_placeOp hb (h.not_mem_opsIn hfree b), parent?_placeOp ho]
    by_cases heq : o' = o
    · have hnot := h.not_mem_opsIn hfree b'
      subst heq
      simp [hnot, eq_comm]
    · simp [heq, h.op]
  block := by
    intro b' r
    rw [owner?_placeOp]
    exact h.block
  region := by
    intro r o'
    rw [regionsOf_placeOp]
    exact h.region
  nodup o' := by
    rw [regionsOf_placeOp]
    exact h.nodup o'

theorem takeOp (h : Owned g) {b : Block} {o : Op} (hparent : g.parent? o = some b) :
    Owned (g.takeOp b o) where
  op := by
    intro o' b'
    rw [mem_opsIn_takeOp, parent?_takeOp, h.op]
    by_cases heq : o' = o
    · subst heq
      rw [hparent]
      simp [eq_comm]
    · simp [heq]
  block := by
    intro b' r
    rw [owner?_takeOp]
    exact h.block
  region := by
    intro r o'
    rw [regionsOf_takeOp]
    exact h.region
  nodup o' := by
    rw [regionsOf_takeOp]
    exact h.nodup o'

/-! ## Blocks in regions -/

/-- An operation that was taken out is in no block. -/
theorem not_mem_opsIn_takeOp (h : Owned g) {b : Block} {o : Op} (hparent : g.parent? o = some b)
    (b' : Block) : o ∉ (g.takeOp b o).opsIn b' :=
  (h.takeOp hparent).not_mem_opsIn (parent?_takeOp_self g b o) b'

/-- No list has an operation any more that was taken out of its block. -/
theorem opsIn_takeOp (h : Owned g) {b : Block} {o : Op} (hparent : g.parent? o = some b)
    (b' : Block) : (g.takeOp b o).opsIn b' = (g.opsIn b').erase o := by
  by_cases heq : b' = b
  · subst heq
    simp only [Graph.takeOp, opsIn, blocks_modifyOp, blocks_modifyBlock, Table.find?_modify]
    cases g.blocks.find? b' with
    | none => rfl
    | some d => simp [Roster.items_remove]
  · have hnot : o ∉ g.opsIn b' := by
      intro hmem
      rw [h.op, hparent] at hmem
      exact heq (Option.some.inj hmem).symm
    rw [List.erase_of_not_mem hnot]
    simp [Graph.takeOp, opsIn, Table.find?_modify, heq]

/-- A block without an owner is in no region. -/
theorem not_mem_blocksIn (h : Owned g) {b : Block} (hfree : g.owner? b = none) (r : Region) :
    b ∉ g.blocksIn r := by
  intro hmem
  rw [h.block, hfree] at hmem
  cases hmem

theorem placeBlock (h : Owned g) {r : Region} {b : Block} (hr : g.regions.contains r = true)
    (hb : g.blocks.contains b = true) (hfree : g.owner? b = none) (i : Nat) :
    Owned (g.placeBlock r i b) where
  op := by
    intro o b'
    rw [opsIn_placeBlock]
    exact h.op
  block := by
    intro b' r'
    rw [mem_blocksIn_placeBlock hr (h.not_mem_blocksIn hfree r), owner?_placeBlock hb]
    by_cases heq : b' = b
    · have hnot := h.not_mem_blocksIn hfree r'
      subst heq
      simp [hnot, eq_comm]
    · simp [heq, h.block]
  region := by
    intro r' o
    rw [holder?_placeBlock]
    exact h.region
  nodup := h.nodup

theorem takeBlock (h : Owned g) {r : Region} {b : Block} (howner : g.owner? b = some r) :
    Owned (g.takeBlock r b) where
  op := by
    intro o b'
    rw [opsIn_takeBlock]
    exact h.op
  block := by
    intro b' r'
    rw [mem_blocksIn_takeBlock, owner?_takeBlock, h.block]
    by_cases heq : b' = b
    · subst heq
      rw [howner]
      simp [eq_comm]
    · simp [heq]
  region := by
    intro r' o
    rw [holder?_takeBlock]
    exact h.region
  nodup := h.nodup

/-! ## Regions of operations -/

theorem putResults (h : Owned g) (o : Op) (first : Nat) (types : List Ty) :
    Owned (g.putResults o first types) :=
  h.congr (fun _ => rfl) (fun _ => rfl) (fun _ => rfl) (fun _ => rfl) (fun _ => rfl) fun _ => rfl

/-- A new operation takes regions that nobody holds; nothing lists it yet. -/
theorem linkOp (h : Owned g) {o : Op} {d : OpData V} (ho : g.ops.find? o = none)
    (hparent : d.parent = none) (hnodup : d.regions.Nodup)
    (hfree : ∀ r ∈ d.regions, g.regions.contains r = true ∧ g.holder? r = none) :
    Owned (g.linkOp o d) where
  op := by
    intro o' b
    show o' ∈ g.opsIn b ↔ _
    rw [parent?_linkOp, h.op]
    by_cases heq : o' = o
    · subst heq
      have hnone : g.parent? o' = none := by simp [parent?, ho]
      simp [hnone, hparent]
    · simp [heq]
  block := by
    intro b r
    rw [blocksIn_linkOp]
    exact h.block
  region := by
    intro r o'
    have hlive : ∀ r ∈ d.regions, g.regions.contains r = true := fun r hr => (hfree r hr).1
    rw [regionsOf_linkOp, holder?_linkOp g o hlive]
    by_cases heq : o' = o
    · subst heq
      have hnot : g.holder? r ≠ some o' := by
        rw [Ne, ← h.region]
        simp [regionsOf, ho]
      by_cases hr : r ∈ d.regions <;> simp [hr, hnot]
    · by_cases hr : r ∈ d.regions
      · have hnone := (hfree r hr).2
        simp [heq, hr, Ne.symm heq, h.region, hnone]
      · simp [heq, hr, h.region]
  nodup o' := by
    rw [regionsOf_linkOp]
    split
    · exact hnodup
    · exact h.nodup o'

/-! ## Erasure -/

section Hangs

variable {o o' : Op} {b : Block} {r : Region} {t : Subtree}

/-- What hangs below an operation of the graph is in the graph. -/
theorem op_of_hangs (h : Owned g) (ht : g.Hangs o t) (hlive : g.ops.contains o = true)
    (ho' : o' ∈ t.ops) : g.ops.contains o' = true := by
  rcases ht.ops_up ho' with rfl | ⟨b, -, hlist⟩
  · exact hlive
  · exact h.op_of_mem_opsIn hlist

theorem block_of_hangs (h : Owned g) (ht : g.Hangs o t) (hb : b ∈ t.blocks) :
    g.blocks.contains b = true := by
  obtain ⟨r, -, hlist⟩ := ht.blocks_up hb
  exact h.block_of_mem_blocksIn hlist

/-- Apart from the root, an operation goes with a subtree just if its parent does. -/
theorem mem_ops_iff (h : Owned g) (ht : g.Hangs o t) (hparent : g.parent? o' = some b)
    (hroot : o' ≠ o) : o' ∈ t.ops ↔ b ∈ t.blocks := by
  constructor
  · intro hin
    rcases ht.ops_up hin with heq | ⟨b', hb', hlist⟩
    · exact absurd heq hroot
    · rw [h.op, hparent] at hlist
      exact Option.some.inj hlist ▸ hb'
  · exact fun hb => ht.ops_down hb (h.op.2 hparent)

theorem mem_blocks_iff (h : Owned g) (ht : g.Hangs o t) (howner : g.owner? b = some r) :
    b ∈ t.blocks ↔ r ∈ t.regions := by
  constructor
  · intro hin
    obtain ⟨r', hr', hlist⟩ := ht.blocks_up hin
    rw [h.block, howner] at hlist
    exact Option.some.inj hlist ▸ hr'
  · exact fun hr => ht.blocks_down hr (h.block.2 howner)

theorem mem_regions_iff (h : Owned g) (ht : g.Hangs o t) (hholder : g.holder? r = some o') :
    r ∈ t.regions ↔ o' ∈ t.ops := by
  constructor
  · intro hin
    obtain ⟨o₁, ho₁, hlist⟩ := ht.regions_up hin
    rw [h.region, hholder] at hlist
    exact Option.some.inj hlist ▸ ho₁
  · exact fun ho => ht.regions_down ho (h.region.2 hholder)

end Hangs

/-- A subtree that is closed downwards and hangs together leaves no link behind. -/
theorem prune (h : Owned g) {o : Op} {t : Subtree} (ht : g.Hangs o t) (produced : List Value) :
    Owned (g.prune o t produced) where
  op := by
    intro o' b
    rw [mem_opsIn_prune, parent?_prune, h.op]
    by_cases hroot : o' = o
    · have hin : o' ∈ t.ops := hroot ▸ ht.root
      subst hroot
      simp [hin]
    · by_cases hparent : g.parent? o' = some b
      · simp [hroot, hparent, h.mem_ops_iff ht hparent hroot]
      · simp [hparent]
  block := by
    intro b r
    rw [blocksIn_prune, owner?_prune]
    by_cases howner : g.owner? b = some r
    · simp [howner, h.block, h.mem_blocks_iff ht howner]
    · simp [howner, h.block]
  region := by
    intro r o'
    rw [regionsOf_prune, holder?_prune]
    by_cases hholder : g.holder? r = some o'
    · simp [hholder, h.region, h.mem_regions_iff ht hholder]
    · simp [hholder, h.region]
  nodup o' := by
    rw [regionsOf_prune]
    split
    · exact List.nodup_nil
    · exact h.nodup o'

end Owned

end RegionIR.Graph
