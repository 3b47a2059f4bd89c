import RegionIR.Proofs.Graph.Walks

/-!
# What the walk down collects

The walk down from an operation collects just the nodes within it.  Its three
levels are alike: an entity is put in front of all that is collected below
the entities it lists.

## Main results

* `Graph.subtree_eq_ok` — the walk ends, and collects the nodes within its root.
* `Graph.blockInside_iff_mem_subtree`, `Graph.regionInside_iff_mem_subtree` — the walks up find
  just what the walk down collects.
* `Graph.hangs_of_contains` — such a collection can be cut out.
-/

namespace RegionIR

open Relation

/-! ## Collections as sets of nodes -/

/-- The collection holds a node. -/
def Subtree.Contains (t : Subtree) : Node → Prop
  | .op o => o ∈ t.ops
  | .block b => b ∈ t.blocks
  | .region r => r ∈ t.regions

namespace Subtree

theorem contains_append {s t : Subtree} {x : Node} :
    (s.append t).Contains x ↔ s.Contains x ∨ t.Contains x := by
  cases x with
  | op o => exact List.mem_append
  | block b => exact List.mem_append
  | region r => exact List.mem_append

theorem contains_concat {l : List Subtree} {x : Node} :
    (concat l).Contains x ↔ ∃ t ∈ l, t.Contains x := by
  induction l with
  | nil =>
      constructor
      · intro h
        cases x <;> cases h
      · rintro ⟨t, ht, -⟩
        cases ht
  | cons t rest ih =>
      show (append t (concat rest)).Contains x ↔ _
      rw [contains_append, ih]
      simp

/-- The collection with a node in front. -/
def cons (x : Node) (t : Subtree) : Subtree :=
  match x with
  | .op o => { t with ops := o :: t.ops }
  | .block b => { t with blocks := b :: t.blocks }
  | .region r => { t with regions := r :: t.regions }

theorem contains_cons {x y : Node} {t : Subtree} :
    (cons x t).Contains y ↔ y = x ∨ t.Contains y := by
  cases x <;> cases y <;> simp [cons, Contains]

end Subtree

namespace Graph

variable {V : Type} {g : Graph V}

/-! ## The three levels of the walk -/

/-- A node, and what is collected below the entities it lists. -/
def collectBelow {α : Type} (x : Node) (listed : List α) (visit : α → Except Fault Subtree) :
    Except Fault Subtree := do
  let inner ← listed.mapM visit
  return Subtree.cons x (Subtree.concat inner)

def blockSubtree (g : Graph V) (levels : Nat) (b : Block) : Except Fault Subtree := do
  collectBelow (.block b) (← g.block b).ops.items (g.subtreeWithin levels)

def regionSubtree (g : Graph V) (levels : Nat) (r : Region) : Except Fault Subtree := do
  collectBelow (.region r) (← g.region r).blocks.items (g.blockSubtree levels)

theorem subtreeWithin_succ (g : Graph V) (levels : Nat) (o : Op) :
    g.subtreeWithin (levels + 1) o =
      g.op o >>= fun d => collectBelow (.op o) d.regions (g.regionSubtree levels) := rfl

/-- A level collects what is within its node if the levels below do. -/
theorem collectBelow_eq_ok {α : Type} {x : Node} {node : α → Node} {listed : List α}
    {visit : α → Except Fault Subtree} (hlist : ∀ y, g.Holds x y ↔ ∃ a, y = node a ∧ a ∈ listed)
    (hvisit : ∀ a ∈ listed, ∃ t, visit a = .ok t ∧ ∀ y, t.Contains y ↔ g.Within y (node a)) :
    ∃ t, collectBelow x listed visit = .ok t ∧ ∀ y, t.Contains y ↔ g.Within y x := by
  obtain ⟨inner, hinner, hback, hforth⟩ := mapM_eq_ok hvisit
  refine ⟨Subtree.cons x (Subtree.concat inner), ?_, fun y => ?_⟩
  · rw [collectBelow, hinner]
    rfl
  · rw [Subtree.contains_cons, Subtree.contains_concat, Within, ReflTransGen.cases_head_iff]
    constructor
    · rintro (rfl | ⟨t, ht, hy⟩)
      · exact Or.inl rfl
      · obtain ⟨a, ha, hwithin⟩ := hback t ht
        exact Or.inr ⟨node a, (hlist _).2 ⟨a, rfl, ha⟩, (hwithin y).1 hy⟩
    · rintro (rfl | ⟨z, hz, hy⟩)
      · exact Or.inl rfl
      · obtain ⟨a, rfl, ha⟩ := (hlist z).1 hz
        obtain ⟨t, ht, hwithin⟩ := hforth a ha
        exact Or.inr ⟨t, ht, (hwithin y).2 hy⟩

/-! ## The whole walk -/

private theorem subtreeWithin_eq_ok (ho : g.Owned) (ha : g.Acyclic) {levels : Nat} {o : Op}
    (hlive : g.ops.contains o = true)
    (hlevels : countNested Node.op g g.ops.keys o < levels) :
    ∃ t, g.subtreeWithin levels o = .ok t ∧ ∀ x, t.Contains x ↔ g.Within x (.op o) := by
  induction levels generalizing o with
  | zero => omega
  | succ levels ih =>
      obtain ⟨d, hd⟩ := Table.contains_iff.1 hlive
      rw [subtreeWithin_succ, show g.op o = .ok d from Table.demand_eq_ok_iff.2 hd, ok_bind,
        ← regionsOf_eq hd]
      refine collectBelow_eq_ok (fun y => op_holds_iff) fun r hr => ?_
      obtain ⟨e, he⟩ := Table.contains_iff.1 (ho.region_of_mem_regionsOf hr)
      rw [regionSubtree, show g.region r = .ok e from Table.demand_eq_ok_iff.2 he, ok_bind,
        ← blocksIn_eq he]
      refine collectBelow_eq_ok (fun y => region_holds_iff) fun b hb => ?_
      obtain ⟨f, hf⟩ := Table.contains_iff.1 (ho.block_of_mem_blocksIn hb)
      rw [blockSubtree, show g.block b = .ok f from Table.demand_eq_ok_iff.2 hf, ok_bind,
        ← opsIn_eq hf]
      refine collectBelow_eq_ok (fun y => block_holds_iff) fun o' ho' => ?_
      -- One round of the three levels down, an operation is reached that is further in.
      have hin : g.Encloses (.op o) (.op o') :=
        TransGen.tail (TransGen.tail (.single (.region hr)) (.block hb)) (.op ho')
      have hinner := ho.op_of_mem_opsIn ho'
      have hfewer := countNested_lt Node.op ha
        (Table.mem_keys_iff.2 (Table.contains_iff.1 hinner)) hin
      exact ih hinner (by omega)

/-- The walk down ends, and collects the nodes within its root. -/
theorem subtree_eq_ok (ho : g.Owned) (ha : g.Acyclic) {o : Op}
    (hlive : g.ops.contains o = true) :
    ∃ t, g.subtree o = .ok t ∧ ∀ x, t.Contains x ↔ g.Within x (.op o) := by
  refine subtreeWithin_eq_ok ho ha hlive ?_
  have hle : countNested Node.op g g.ops.keys o ≤ g.ops.keys.length := countBehind_le _ _ o
  rw [Table.length_keys] at hle
  omega

/-! ## The walks agree -/

/-- The walk up from a block meets a region of an operation iff the walk down from the operation
collects the block. -/
theorem blockInside_iff_mem_subtree (ho : g.Owned) (ha : g.Acyclic) {o : Op} {d : OpData V}
    (hd : g.ops.find? o = some d) (b : Block) : ∃ inside t,
      g.blockInside b d.regions = .ok inside ∧ g.subtree o = .ok t ∧
        (inside = true ↔ b ∈ t.blocks) := by
  obtain ⟨inside, hinside, hup⟩ := blockInside_eq_ok ho ha b d.regions
  obtain ⟨t, ht, hdown⟩ := subtree_eq_ok ho ha (Table.contains_iff.2 ⟨d, hd⟩)
  refine ⟨inside, t, hinside, ht, ?_⟩
  rw [← regionsOf_eq hd, ← block_within_op_iff] at hup
  exact hup.trans (hdown (.block b)).symm

/-- The walk up from a region meets a block iff a walk down from an operation of the block collects
the region. -/
theorem regionInside_iff_mem_subtree (ho : g.Owned) (ha : g.Acyclic) {r : Region}
    (hr : g.regions.contains r = true) {b : Block} {e : BlockData}
    (he : g.blocks.find? b = some e) : ∃ inside, g.regionInside r b = .ok inside ∧
      (∀ o ∈ e.ops.items, ∃ t, g.subtree o = .ok t) ∧
      (inside = true ↔ ∃ o ∈ e.ops.items, ∃ t, g.subtree o = .ok t ∧ r ∈ t.regions) := by
  obtain ⟨inside, hinside, hup⟩ := regionInside_eq_ok ho ha hr b
  have hdown : ∀ o ∈ g.opsIn b,
      ∃ t, g.subtree o = .ok t ∧ (r ∈ t.regions ↔ g.Within (.region r) (.op o)) := by
    intro o hmem
    obtain ⟨t, ht, hwithin⟩ := subtree_eq_ok ho ha (ho.op_of_mem_opsIn hmem)
    exact ⟨t, ht, hwithin (.region r)⟩
  rw [← opsIn_eq he]
  refine ⟨inside, hinside, fun o hmem => ?_, ?_⟩
  · obtain ⟨t, ht, -⟩ := hdown o hmem
    exact ⟨t, ht⟩
  · rw [hup, block_encloses_iff]
    constructor
    · rintro ⟨o, hmem, hin⟩
      obtain ⟨t, ht, hwithin⟩ := hdown o hmem
      exact ⟨o, hmem, t, ht, hwithin.2 hin⟩
    · rintro ⟨o, hmem, t, ht, hcollected⟩
      obtain ⟨t', ht', hwithin⟩ := hdown o hmem
      cases ht.symm.trans ht'
      exact ⟨o, hmem, hwithin.1 hcollected⟩

/-! ## Cutting a collection out -/

/-- A collection of the nodes within its root is closed downwards and hangs together upwards. -/
theorem hangs_of_contains {o : Op} {t : Subtree}
    (ht : ∀ x, t.Contains x ↔ g.Within x (.op o)) : g.Hangs o t where
  root := (ht (.op o)).2 .refl
  regions_down := by
    intro o' r ho' hr
    exact (ht (.region r)).2 (((ht (.op o')).1 ho').tail (.region hr))
  blocks_down := by
    intro r b hr hb
    exact (ht (.block b)).2 (((ht (.region r)).1 hr).tail (.block hb))
  ops_down := by
    intro b o' hb ho'
    exact (ht (.op o')).2 (((ht (.block b)).1 hb).tail (.op ho'))
  regions_up := by
    intro r hr
    rcases ReflTransGen.cases_tail ((ht (.region r)).1 hr) with heq | ⟨x, hx, hlast⟩
    · cases heq
    · obtain ⟨o', rfl, hmem⟩ := holds_region_iff.1 hlast
      exact ⟨o', (ht (.op o')).2 hx, hmem⟩
  blocks_up := by
    intro b hb
    rcases ReflTransGen.cases_tail ((ht (.block b)).1 hb) with heq | ⟨x, hx, hlast⟩
    · cases heq
    · obtain ⟨r, rfl, hmem⟩ := holds_block_iff.1 hlast
      exact ⟨r, (ht (.region r)).2 hx, hmem⟩
  ops_up := by
    intro o' ho'
    rcases ReflTransGen.cases_tail ((ht (.op o')).1 ho') with heq | ⟨x, hx, hlast⟩
    · injection heq with heq
      exact Or.inl heq
    · obtain ⟨b, rfl, hmem⟩ := holds_op_iff.1 hlast
      exact Or.inr ⟨b, (ht (.block b)).2 hx, hmem⟩

end Graph

end RegionIR
