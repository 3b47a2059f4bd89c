import Mathlib.Logic.Relation
import RegionIR.Proofs.Invariants.Ownership

/-!
# Nesting is well-founded

An operation is listed in a block, a block in a region, and a region belongs
to an operation.  A cycle of these three steps could be closed from any of the
three sides, so all entities are taken as nodes of one relation, `Holds`, and
the invariant says that no node encloses itself.

Every change of a graph falls under one of three patterns: it only drops
edges, it adds one edge whose lower end does not reach up to its upper end, or
it adds a new node that nothing holds.  None of the patterns needs to know
which kind of entity it is about.

## Main results

* `Graph.Acyclic` — the invariant.
* `Acyclic.mono`, `Acyclic.of_new_edge`, `Acyclic.of_new_root` — the patterns.
* `Acyclic.placeOp`, `Acyclic.placeBlock`, `Acyclic.linkOp`, … — the changes.
* `Acyclic.placeOp_iff`, `Acyclic.placeBlock_iff` — the only placements that close a cycle.
-/

namespace RegionIR

open Relation

/-- An operation, a block or a region. -/
inductive Node where
  | op (o : Op)
  | block (b : Block)
  | region (r : Region)
  deriving DecidableEq

namespace Graph

variable {V : Type}

/-- One node is listed directly in another one. -/
inductive Holds (g : Graph V) : Node → Node → Prop where
  | op {b : Block} {o : Op} (h : o ∈ g.opsIn b) : Holds g (.block b) (.op o)
  | block {r : Region} {b : Block} (h : b ∈ g.blocksIn r) : Holds g (.region r) (.block b)
  | region {o : Op} {r : Region} (h : r ∈ g.regionsOf o) : Holds g (.op o) (.region r)

/-- One node is nested in another one, at any depth. -/
def Encloses (g : Graph V) : Node → Node → Prop := TransGen g.Holds

/-- One node is another one or nested in it. -/
def Within (g : Graph V) (y x : Node) : Prop := ReflTransGen g.Holds x y

/-- No node is nested in itself. -/
def Acyclic (g : Graph V) : Prop := ∀ x, ¬ g.Encloses x x

/-! ## Reading one step -/

section Steps

variable {g : Graph V} {x : Node}

theorem holds_op_iff {o : Op} : g.Holds x (.op o) ↔ ∃ b, x = .block b ∧ o ∈ g.opsIn b := by
  constructor
  · intro h
    cases h with | op h => exact ⟨_, rfl, h⟩
  · rintro ⟨b, rfl, h⟩
    exact .op h

theorem holds_block_iff {b : Block} :
    g.Holds x (.block b) ↔ ∃ r, x = .region r ∧ b ∈ g.blocksIn r := by
  constructor
  · intro h
    cases h with | block h => exact ⟨_, rfl, h⟩
  · rintro ⟨r, rfl, h⟩
    exact .block h

theorem holds_region_iff {r : Region} :
    g.Holds x (.region r) ↔ ∃ o, x = .op o ∧ r ∈ g.regionsOf o := by
  constructor
  · intro h
    cases h with | region h => exact ⟨_, rfl, h⟩
  · rintro ⟨o, rfl, h⟩
    exact .region h

theorem op_holds_iff {o : Op} : g.Holds (.op o) x ↔ ∃ r, x = .region r ∧ r ∈ g.regionsOf o := by
  constructor
  · intro h
    cases h with | region h => exact ⟨_, rfl, h⟩
  · rintro ⟨r, rfl, h⟩
    exact .region h

theorem block_holds_iff {b : Block} :
    g.Holds (.block b) x ↔ ∃ o, x = .op o ∧ o ∈ g.opsIn b := by
  constructor
  · intro h
    cases h with | op h => exact ⟨_, rfl, h⟩
  · rintro ⟨o, rfl, h⟩
    exact .op h

theorem region_holds_iff {r : Region} :
    g.Holds (.region r) x ↔ ∃ b, x = .block b ∧ b ∈ g.blocksIn r := by
  constructor
  · intro h
    cases h with | block h => exact ⟨_, rfl, h⟩
  · rintro ⟨b, rfl, h⟩
    exact .block h

/-- Nothing is nested in an operation without regions. -/
theorem within_op_iff_of_no_regions {o : Op} (h : g.regionsOf o = []) :
    g.Within x (.op o) ↔ x = .op o := by
  rw [Within, ReflTransGen.cases_head_iff]
  refine or_iff_left_iff_imp.2 ?_ |>.trans eq_comm
  rintro ⟨y, hy, -⟩
  obtain ⟨r, -, hr⟩ := op_holds_iff.1 hy
  rw [h] at hr
  cases hr

end Steps

variable {g g' : Graph V}

theorem Holds.of_lists {x y : Node} (h : g'.Holds x y)
    (hops : ∀ b o, o ∈ g'.opsIn b → o ∈ g.opsIn b)
    (hblocks : ∀ r b, b ∈ g'.blocksIn r → b ∈ g.blocksIn r)
    (hregions : ∀ o r, r ∈ g'.regionsOf o → r ∈ g.regionsOf o) : g.Holds x y := by
  cases h with
  | op hmem => exact .op (hops _ _ hmem)
  | block hmem => exact .block (hblocks _ _ hmem)
  | region hmem => exact .region (hregions _ _ hmem)

/-- Taking an operation out of a block adds no edge. -/
theorem Holds.of_takeOp {b : Block} {o : Op} {x y : Node} (h : (g.takeOp b o).Holds x y) :
    g.Holds x y := by
  refine h.of_lists (fun b' o' hmem => ?_) (fun _ _ hmem => hmem) fun o' r hmem => ?_
  · exact ((mem_opsIn_takeOp g b b' o o').1 hmem).2
  · rwa [regionsOf_takeOp] at hmem

/-- Taking an operation out of a block drops no edge but those to the operation. -/
theorem Holds.takeOp {o : Op} {x y : Node} (h : g.Holds x y) (hne : y ≠ .op o) (b : Block) :
    (g.takeOp b o).Holds x y := by
  cases h with
  | op hmem =>
      refine .op ((mem_opsIn_takeOp g _ _ _ _).2 ⟨fun heq => hne ?_, hmem⟩)
      rw [heq.1]
  | block hmem => exact .block hmem
  | region hmem =>
      refine .region ?_
      rwa [regionsOf_takeOp]

/-- Placing an operation drops no edge. -/
theorem Holds.placeOp {b : Block} {o : Op} {x y : Node} (h : g.Holds x y)
    (hb : g.blocks.contains b = true) (ho : o ∉ g.opsIn b) (i : Nat) :
    (g.placeOp b i o).Holds x y := by
  cases h with
  | op hmem => exact .op ((mem_opsIn_placeOp hb ho i _ _).2 (Or.inr hmem))
  | block hmem => exact .block hmem
  | region hmem =>
      refine .region ?_
      rwa [regionsOf_placeOp]

/-- Nor does placing a block. -/
theorem Holds.placeBlock {r : Region} {b : Block} {x y : Node} (h : g.Holds x y)
    (hr : g.regions.contains r = true) (hb : b ∉ g.blocksIn r) (i : Nat) :
    (g.placeBlock r i b).Holds x y := by
  cases h with
  | op hmem =>
      refine .op ?_
      rwa [opsIn_placeBlock]
  | block hmem => exact .block ((mem_blocksIn_placeBlock hr hb i _ _).2 (Or.inr hmem))
  | region hmem => exact .region hmem

/-- Values are not nodes, so results bring no edges. -/
theorem encloses_putResults_iff (o : Op) (first : Nat) (types : List Ty) (x y : Node) :
    (g.putResults o first types).Encloses x y ↔ g.Encloses x y := by
  have hholds : (g.putResults o first types).Holds = g.Holds := by
    funext x y
    refine propext ⟨fun h => ?_, fun h => ?_⟩
    · exact h.of_lists (fun _ _ hmem => hmem) (fun _ _ hmem => hmem) fun _ _ hmem => hmem
    · exact h.of_lists (fun _ _ hmem => hmem) (fun _ _ hmem => hmem) fun _ _ hmem => hmem
  rw [Encloses, hholds, Encloses]

/-- New edges that leave one node which nothing holds are on no path from elsewhere. -/
theorem Encloses.of_new_root {root x y : Node} (h : g'.Encloses x y)
    (hnew : ∀ x y, g'.Holds x y → g.Holds x y ∨ x = root) (hroot : ∀ x, ¬ g'.Holds x root) :
    g.Encloses x y ∨ x = root := by
  induction h with
  | single hxy => exact (hnew _ _ hxy).imp_left .single
  | tail hxy hyz ih =>
      rcases ih with ih | rfl
      · rcases hnew _ _ hyz with hold | rfl
        · exact Or.inl (.tail ih hold)
        · obtain ⟨w, -, hw⟩ := TransGen.tail'_iff.1 hxy
          exact absurd hw (hroot w)
      · exact Or.inr rfl

/-- A new operation adds edges to its regions only. -/
theorem Holds.of_linkOp {o : Op} {d : OpData V} {x y : Node} (h : (g.linkOp o d).Holds x y) :
    g.Holds x y ∨ x = .op o := by
  cases h with
  | op hmem => exact Or.inl (.op hmem)
  | block hmem =>
      rw [blocksIn_linkOp] at hmem
      exact Or.inl (.block hmem)
  | @region o' r hmem =>
      rw [regionsOf_linkOp] at hmem
      by_cases heq : o' = o
      · exact Or.inr (congrArg Node.op heq)
      · rw [if_neg heq] at hmem
        exact Or.inl (.region hmem)

/-- Linking an operation that is not there yet drops no edge. -/
theorem Holds.linkOp {o : Op} {x y : Node} (h : g.Holds x y) (hfresh : g.ops.find? o = none)
    (d : OpData V) : (g.linkOp o d).Holds x y := by
  cases h with
  | op hmem => exact .op hmem
  | block hmem =>
      refine .block ?_
      rwa [blocksIn_linkOp]
  | @region o' r hmem =>
      have hne : o' ≠ o := by
        rintro rfl
        rw [regionsOf, hfresh] at hmem
        cases hmem
      refine .region ?_
      rwa [regionsOf_linkOp, if_neg hne]

/-- Nothing holds an operation that no block lists. -/
theorem not_holds_linkOp {o : Op} (hfree : ∀ b, o ∉ g.opsIn b) (d : OpData V) (x : Node) :
    ¬ (g.linkOp o d).Holds x (.op o) := by
  intro hx
  obtain ⟨b, -, hmem⟩ := holds_op_iff.1 hx
  exact hfree b hmem

namespace Acyclic

/-! ## The three patterns -/

theorem empty : Acyclic (Graph.empty : Graph V) := by
  intro x hcycle
  obtain ⟨y, -, hlast⟩ := TransGen.tail'_iff.1 hcycle
  cases hlast with
  | op h => cases h
  | block h => cases h
  | region h => cases h

/-- Dropping edges closes no cycle. -/
theorem mono (h : Acyclic g) (hsub : ∀ x y, g'.Holds x y → g.Holds x y) : Acyclic g' := by
  intro x hcycle
  exact h x (TransGen.mono hsub x x hcycle)

/-- An edge closes no cycle if its upper end is not within its lower end. -/
theorem of_new_edge (h : Acyclic g) {upper lower : Node}
    (hnew : ∀ x y, g'.Holds x y → g.Holds x y ∨ (x = upper ∧ y = lower))
    (hapart : ¬ g.Within upper lower) : Acyclic g' := by
  -- A path uses the new edge at most once, as it can not come back to its upper end.
  have hpath : ∀ {x y}, g'.Encloses x y →
      g.Encloses x y ∨ (g.Within upper x ∧ g.Within y lower) := by
    intro x y hxy
    induction hxy with
    | single hxy =>
        rcases hnew _ _ hxy with hold | ⟨rfl, rfl⟩
        · exact Or.inl (.single hold)
        · exact Or.inr ⟨.refl, .refl⟩
    | tail _ hyz ih =>
        rcases hnew _ _ hyz with hold | ⟨rfl, rfl⟩
        · rcases ih with ih | ⟨hup, hdown⟩
          · exact Or.inl (.tail ih hold)
          · exact Or.inr ⟨hup, .tail hdown hold⟩
        · rcases ih with ih | ⟨-, hdown⟩
          · exact Or.inr ⟨ih.to_reflTransGen, .refl⟩
          · exact absurd hdown hapart
  intro x hcycle
  rcases hpath hcycle with hold | ⟨hup, hdown⟩
  · exact h x hold
  · exact hapart (hdown.trans hup)

/-- Conversely, an edge that has closed no cycle leads to no node that its upper end was within. -/
theorem not_within_of_edge (h : Acyclic g') {upper lower : Node}
    (hold : ∀ x y, g.Holds x y → g'.Holds x y) (hedge : g'.Holds upper lower) :
    ¬ g.Within upper lower := by
  intro hin
  exact h lower (TransGen.tail' (ReflTransGen.mono hold _ _ hin) hedge)

/-- New edges that leave one node which nothing holds close no cycle. -/
theorem of_new_root (h : Acyclic g) {root : Node}
    (hnew : ∀ x y, g'.Holds x y → g.Holds x y ∨ x = root) (hroot : ∀ x, ¬ g'.Holds x root) :
    Acyclic g' := by
  intro x hcycle
  rcases hcycle.of_new_root hnew hroot with hold | rfl
  · exact h x hold
  · obtain ⟨w, -, hw⟩ := TransGen.tail'_iff.1 hcycle
    exact hroot w hw

/-! ## The changes -/

/-- Edges come from three lists; where none of them grows, no cycle appears. -/
theorem of_lists (h : Acyclic g) (hops : ∀ b o, o ∈ g'.opsIn b → o ∈ g.opsIn b)
    (hblocks : ∀ r b, b ∈ g'.blocksIn r → b ∈ g.blocksIn r)
    (hregions : ∀ o r, r ∈ g'.regionsOf o → r ∈ g.regionsOf o) : Acyclic g' :=
  h.mono fun _ _ hxy => hxy.of_lists hops hblocks hregions

theorem placeOp (h : Acyclic g) {b : Block} {o : Op} (hb : g.blocks.contains b = true)
    (ho : o ∉ g.opsIn b) (hapart : ¬ g.Within (.block b) (.op o)) (i : Nat) :
    Acyclic (g.placeOp b i o) := by
  refine h.of_new_edge (fun x y hxy => ?_) hapart
  cases hxy with
  | op hmem =>
      rw [mem_opsIn_placeOp hb ho] at hmem
      rcases hmem with ⟨rfl, rfl⟩ | hmem
      · exact Or.inr ⟨rfl, rfl⟩
      · exact Or.inl (.op hmem)
  | block hmem => exact Or.inl (.block hmem)
  | region hmem =>
      rw [regionsOf_placeOp] at hmem
      exact Or.inl (.region hmem)

theorem placeOp_iff (h : Acyclic g) {b : Block} {o : Op} (hb : g.blocks.contains b = true)
    (ho : o ∉ g.opsIn b) (i : Nat) :
    Acyclic (g.placeOp b i o) ↔ ¬ g.Within (.block b) (.op o) := by
  constructor
  · intro hplaced
    have hedge : o ∈ (g.placeOp b i o).opsIn b :=
      (mem_opsIn_placeOp hb ho i b o).2 (Or.inl ⟨rfl, rfl⟩)
    exact hplaced.not_within_of_edge (fun _ _ hxy => hxy.placeOp hb ho i) (.op hedge)
  · intro hapart
    exact h.placeOp hb ho hapart i

theorem takeOp (h : Acyclic g) (b : Block) (o : Op) : Acyclic (g.takeOp b o) :=
  h.mono fun _ _ hxy => hxy.of_takeOp

/-- An operation keeps what is nested in it when it is taken out. -/
theorem within_takeOp_iff (h : Acyclic g) (b : Block) (o : Op) (x : Node) :
    (g.takeOp b o).Within x (.op o) ↔ g.Within x (.op o) := by
  constructor
  · intro hin
    exact ReflTransGen.mono (fun _ _ hxy => hxy.of_takeOp) _ _ hin
  · intro hin
    induction hin with
    | refl => exact .refl
    | @tail y z hy hyz ih =>
        -- The edges to the operation that have been dropped are on no path from it.
        refine ih.tail (hyz.takeOp (fun heq => ?_) b)
        subst heq
        exact h _ (TransGen.tail' hy hyz)

theorem placeBlock (h : Acyclic g) {r : Region} {b : Block} (hr : g.regions.contains r = true)
    (hb : b ∉ g.blocksIn r) (hapart : ¬ g.Within (.region r) (.block b)) (i : Nat) :
    Acyclic (g.placeBlock r i b) := by
  refine h.of_new_edge (fun x y hxy => ?_) hapart
  cases hxy with
  | op hmem =>
      rw [opsIn_placeBlock] at hmem
      exact Or.inl (.op hmem)
  | block hmem =>
      rw [mem_blocksIn_placeBlock hr hb] at hmem
      rcases hmem with ⟨rfl, rfl⟩ | hmem
      · exact Or.inr ⟨rfl, rfl⟩
      · exact Or.inl (.block hmem)
  | region hmem => exact Or.inl (.region hmem)

theorem placeBlock_iff (h : Acyclic g) {r : Region} {b : Block}
    (hr : g.regions.contains r = true) (hb : b ∉ g.blocksIn r) (i : Nat) :
    Acyclic (g.placeBlock r i b) ↔ ¬ g.Within (.region r) (.block b) := by
  constructor
  · intro hplaced
    have hedge : b ∈ (g.placeBlock r i b).blocksIn r :=
      (mem_blocksIn_placeBlock hr hb i r b).2 (Or.inl ⟨rfl, rfl⟩)
    exact hplaced.not_within_of_edge (fun _ _ hxy => hxy.placeBlock hr hb i) (.block hedge)
  · intro hapart
    exact h.placeBlock hr hb hapart i

theorem takeBlock (h : Acyclic g) (r : Region) (b : Block) : Acyclic (g.takeBlock r b) := by
  refine h.of_lists (fun b' o hmem => ?_) (fun r' b' hmem => ?_) fun _ _ hmem => hmem
  · rwa [opsIn_takeBlock] at hmem
  · exact ((mem_blocksIn_takeBlock g r r' b b').1 hmem).2

theorem putResults (h : Acyclic g) (o : Op) (first : Nat) (types : List Ty) :
    Acyclic (g.putResults o first types) :=
  h.of_lists (fun _ _ hmem => hmem) (fun _ _ hmem => hmem) fun _ _ hmem => hmem

/-- A new operation holds its regions, and nothing holds it. -/
theorem linkOp (h : Acyclic g) {o : Op} (hfree : ∀ b, o ∉ g.opsIn b) (d : OpData V) :
    Acyclic (g.linkOp o d) :=
  h.of_new_root (fun _ _ hxy => hxy.of_linkOp) (not_holds_linkOp hfree d)

theorem prune (h : Acyclic g) (o : Op) (t : Subtree) (produced : List Value) :
    Acyclic (g.prune o t produced) := by
  refine h.of_lists (fun b o' hmem => ?_) (fun r b hmem => ?_) fun o' r hmem => ?_
  · exact ((mem_opsIn_prune g o t produced b o').1 hmem).2.2
  · rw [blocksIn_prune] at hmem
    split at hmem
    · cases hmem
    · exact hmem
  · rw [regionsOf_prune] at hmem
    split at hmem
    · cases hmem
    · exact hmem

end Acyclic

end Graph

end RegionIR
