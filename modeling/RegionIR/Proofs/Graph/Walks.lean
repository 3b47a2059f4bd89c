import RegionIR.Proofs.Data.Computations
import RegionIR.Proofs.Invariants.Nesting

/-!
# Walks up end and find what they look for

A walk is bounded by one more step than there are entities of the kind it
passes.  In a graph without cycles the bound is never met: with every step
there are fewer entities ahead, since the one it just reached can not turn up
again.  So the answer of a walk is a statement about the nesting alone, in
which no bound occurs.

## Main results

* `Graph.countAround_lt`, `Graph.countNested_lt` — every step leaves fewer entities ahead.
* `Graph.blockInside_eq_ok`, `Graph.regionInside_eq_ok` — the two walks up.
-/

namespace RegionIR

open Relation

namespace Graph

variable {V : Type} {g : Graph V}

/-! ## The length of a walk -/

section Length

variable {α : Type} (node : α → Node) {l : List α} {x y : α}

/-- The number of entities of one kind that are around one of them. -/
noncomputable def countAround (g : Graph V) (l : List α) (x : α) : Nat :=
  countBehind (fun y x => g.Encloses (node y) (node x)) l x

/-- The number of entities of one kind that are nested in one of them. -/
noncomputable def countNested (g : Graph V) (l : List α) (x : α) : Nat :=
  countBehind (fun y x => g.Encloses (node x) (node y)) l x

theorem countAround_lt (h : g.Acyclic) (hy : y ∈ l) (hstep : g.Encloses (node y) (node x)) :
    countAround node g l y < countAround node g l x :=
  countBehind_lt (fun hab hbc => TransGen.trans hab hbc) (fun z => h (node z)) hy hstep

theorem countNested_lt (h : g.Acyclic) (hy : y ∈ l) (hstep : g.Encloses (node x) (node y)) :
    countNested node g l y < countNested node g l x :=
  countBehind_lt (fun hab hbc => TransGen.trans hbc hab) (fun z => h (node z)) hy hstep

end Length

/-! ## Nesting, one step further up -/

/-- The block around a region holds the operation of the region. -/
theorem encloses_of_blockAround? (h : g.Owned) {b : Block} {r : Region}
    (hb : g.blockAround? r = some b) : g.Encloses (.block b) (.region r) := by
  obtain ⟨o, hr, ho⟩ := Option.bind_eq_some_iff.1 hb
  have hop : g.Holds (.block b) (.op o) := .op (h.op.2 ho)
  have hregion : g.Holds (.op o) (.region r) := .region (h.region.2 hr)
  exact TransGen.tail (.single hop) hregion

theorem Owned.contains_blockAround? (h : g.Owned) {b : Block} {r : Region}
    (hb : g.blockAround? r = some b) : g.blocks.contains b = true := by
  obtain ⟨o, -, ho⟩ := Option.bind_eq_some_iff.1 hb
  exact h.block_of_parent? ho

/-- What encloses a block is its owner, or encloses the block around it. -/
theorem encloses_block_iff (h : g.Owned) {r' : Region} {b : Block} :
    g.Encloses (.region r') (.block b) ↔ ∃ r, g.owner? b = some r ∧
      (r' = r ∨ ∃ b', g.blockAround? r = some b' ∧ g.Encloses (.region r') (.block b')) := by
  constructor
  · intro hin
    obtain ⟨x, hx, hlast⟩ := TransGen.tail'_iff.1 hin
    obtain ⟨r, rfl, hb⟩ := holds_block_iff.1 hlast
    refine ⟨r, h.block.1 hb, ?_⟩
    rcases ReflTransGen.cases_tail hx with heq | ⟨y, hy, hmid⟩
    · injection heq with heq
      exact Or.inl heq.symm
    · obtain ⟨o, rfl, hr⟩ := holds_region_iff.1 hmid
      rcases ReflTransGen.cases_tail hy with heq | ⟨z, hz, hfirst⟩
      · cases heq
      · obtain ⟨b', rfl, ho⟩ := holds_op_iff.1 hfirst
        refine Or.inr ⟨b', ?_, ?_⟩
        · exact Option.bind_eq_some_iff.2 ⟨o, h.region.1 hr, h.op.1 ho⟩
        · rcases reflTransGen_iff_eq_or_transGen.1 hz with heq | hz
          · cases heq
          · exact hz
  · rintro ⟨r, hb, hcase⟩
    have hlast : g.Holds (.region r) (.block b) := .block (h.block.2 hb)
    rcases hcase with rfl | ⟨b', haround, hin⟩
    · exact .single hlast
    · exact TransGen.tail (hin.trans (encloses_of_blockAround? h haround)) hlast

/-- What encloses a region is the block around it, or encloses the owner of that block. -/
theorem encloses_region_iff (h : g.Owned) {b : Block} {r : Region} :
    g.Encloses (.block b) (.region r) ↔ ∃ b', g.blockAround? r = some b' ∧
      (b' = b ∨ ∃ r', g.owner? b' = some r' ∧ g.Encloses (.block b) (.region r')) := by
  constructor
  · intro hin
    obtain ⟨x, hx, hlast⟩ := TransGen.tail'_iff.1 hin
    obtain ⟨o, rfl, hr⟩ := holds_region_iff.1 hlast
    rcases ReflTransGen.cases_tail hx with heq | ⟨y, hy, hmid⟩
    · cases heq
    · obtain ⟨b', rfl, ho⟩ := holds_op_iff.1 hmid
      refine ⟨b', Option.bind_eq_some_iff.2 ⟨o, h.region.1 hr, h.op.1 ho⟩, ?_⟩
      rcases ReflTransGen.cases_tail hy with heq | ⟨z, hz, hfirst⟩
      · injection heq with heq
        exact Or.inl heq
      · obtain ⟨r', rfl, hb'⟩ := holds_block_iff.1 hfirst
        refine Or.inr ⟨r', h.block.1 hb', ?_⟩
        rcases reflTransGen_iff_eq_or_transGen.1 hz with heq | hz
        · cases heq
        · exact hz
  · rintro ⟨b', haround, hcase⟩
    have hinner := encloses_of_blockAround? h haround
    rcases hcase with rfl | ⟨r', hb', hin⟩
    · exact hinner
    · have hfirst : g.Holds (.region r') (.block b') := .block (h.block.2 hb')
      exact (TransGen.tail hin hfirst).trans hinner

/-- A block is nested in an operation if it is in one of the regions of the operation. -/
theorem block_within_op_iff {b : Block} {o : Op} : g.Within (.block b) (.op o) ↔
    ∃ r ∈ g.regionsOf o, g.Encloses (.region r) (.block b) := by
  constructor
  · intro hin
    rcases ReflTransGen.cases_head hin with heq | ⟨x, hfirst, hrest⟩
    · cases heq
    · obtain ⟨r, rfl, hr⟩ := op_holds_iff.1 hfirst
      rcases reflTransGen_iff_eq_or_transGen.1 hrest with heq | hrest
      · cases heq
      · exact ⟨r, hr, hrest⟩
  · rintro ⟨r, hr, hin⟩
    exact hin.to_reflTransGen.head (.region hr)

/-- A region is nested in a block, or it is not within the block at all. -/
theorem region_within_block_iff {r : Region} {b : Block} :
    g.Within (.region r) (.block b) ↔ g.Encloses (.block b) (.region r) := by
  rw [Within, reflTransGen_iff_eq_or_transGen, or_iff_right Node.noConfusion]
  rfl

/-- What is nested in a block is nested in one of its operations. -/
theorem block_encloses_iff {b : Block} {x : Node} :
    g.Encloses (.block b) x ↔ ∃ o ∈ g.opsIn b, g.Within x (.op o) := by
  rw [Encloses, TransGen.head'_iff]
  constructor
  · rintro ⟨y, hfirst, hrest⟩
    obtain ⟨o, rfl, ho⟩ := block_holds_iff.1 hfirst
    exact ⟨o, ho, hrest⟩
  · rintro ⟨o, ho, hrest⟩
    exact ⟨.op o, .op ho, hrest⟩

/-! ## Upwards -/

/-- The same with several regions, one of which is to be found. -/
private theorem encloses_some_block_iff (ho : g.Owned) {regions : List Region} {b : Block} :
    (∃ r ∈ regions, g.Encloses (.region r) (.block b)) ↔ ∃ r, g.owner? b = some r ∧
      (r ∈ regions ∨ ∃ b', g.blockAround? r = some b' ∧
        ∃ r' ∈ regions, g.Encloses (.region r') (.block b')) := by
  constructor
  · rintro ⟨r', hr', hin⟩
    obtain ⟨r, howner, hcase⟩ := (encloses_block_iff ho).1 hin
    rcases hcase with rfl | ⟨b', haround, hin⟩
    · exact ⟨r', howner, Or.inl hr'⟩
    · exact ⟨r, howner, Or.inr ⟨b', haround, r', hr', hin⟩⟩
  · rintro ⟨r, howner, hr | ⟨b', haround, r', hr', hin⟩⟩
    · exact ⟨r, hr, (encloses_block_iff ho).2 ⟨r, howner, Or.inl rfl⟩⟩
    · exact ⟨r', hr', (encloses_block_iff ho).2 ⟨r, howner, Or.inr ⟨b', haround, hin⟩⟩⟩

/-- One step up from a block. -/
theorem blockInsideWithin_succ (g : Graph V) (regions : List Region) (steps : Nat) (b : Block) :
    g.blockInsideWithin regions (steps + 1) b =
      match g.owner? b with
      | none => .ok false
      | some r =>
        if r ∈ regions then .ok true
        else
          match g.blockAround? r with
          | none => .ok false
          | some b' => g.blockInsideWithin regions steps b' := rfl

private theorem blockInsideWithin_eq_ok (ho : g.Owned) (ha : g.Acyclic) (regions : List Region)
    {steps : Nat} {b : Block}
    (hsteps : countAround Node.block g g.blocks.keys b < steps) :
    ∃ inside, g.blockInsideWithin regions steps b = .ok inside ∧
      (inside = true ↔ ∃ r ∈ regions, g.Encloses (.region r) (.block b)) := by
  induction steps generalizing b with
  | zero => omega
  | succ steps ih =>
      rw [blockInsideWithin_succ, encloses_some_block_iff ho]
      cases howner : g.owner? b with
      | none => exact ⟨false, rfl, by simp⟩
      | some r =>
          by_cases hr : r ∈ regions
          · exact ⟨true, if_pos hr, by simp [hr]⟩
          · simp only [if_neg hr]
            cases haround : g.blockAround? r with
            | none => exact ⟨false, rfl, by simp [hr, haround]⟩
            | some b' =>
                have hlive := ho.contains_blockAround? haround
                have hstep : g.Encloses (.block b') (.block b) :=
                  (encloses_of_blockAround? ho haround).tail (.block (ho.block.2 howner))
                have hfewer := countAround_lt Node.block ha
                  (Table.mem_keys_iff.2 (Table.contains_iff.1 hlive)) hstep
                obtain ⟨inside, hinside, hin⟩ := ih (b := b') (by omega)
                exact ⟨inside, hinside, hin.trans (by simp [hr, haround])⟩

/-- The walk up from a block ends, and tells whether one of the regions is around it. -/
theorem blockInside_eq_ok (ho : g.Owned) (ha : g.Acyclic) (b : Block) (regions : List Region) :
    ∃ inside, g.blockInside b regions = .ok inside ∧
      (inside = true ↔ ∃ r ∈ regions, g.Encloses (.region r) (.block b)) := by
  refine blockInsideWithin_eq_ok ho ha regions ?_
  have hle : countAround Node.block g g.blocks.keys b ≤ g.blocks.keys.length :=
    countBehind_le _ _ b
  rw [Table.length_keys] at hle
  omega

/-- One step up from a region, where every link leads somewhere. -/
private theorem regionInsideWithin_succ (ho : g.Owned) (target : Block) (steps : Nat)
    {r : Region} (hr : g.regions.contains r = true) :
    g.regionInsideWithin target (steps + 1) r =
      match g.blockAround? r with
      | none => .ok false
      | some b =>
        if b = target then .ok true
        else
          match g.owner? b with
          | none => .ok false
          | some r' => g.regionInsideWithin target steps r' := by
  obtain ⟨d, hd⟩ := Table.contains_iff.1 hr
  have hregion : g.region r = .ok d := Table.demand_eq_ok_iff.2 hd
  have haround : g.blockAround? r = d.parent.bind g.parent? := by
    rw [← holder?_eq hd]
    rfl
  rw [haround, regionInsideWithin, hregion, ok_bind]
  cases hholder : d.parent with
  | none => rfl
  | some o =>
      obtain ⟨e, he⟩ := Table.contains_iff.1 (ho.op_of_holder? ((holder?_eq hd).trans hholder))
      have hop : g.op o = .ok e := Table.demand_eq_ok_iff.2 he
      simp only [hop, ok_bind, Option.bind_some, parent?_eq he]
      cases hparent : e.parent with
      | none => rfl
      | some b =>
          obtain ⟨f, hf⟩ :=
            Table.contains_iff.1 (ho.block_of_parent? ((parent?_eq he).trans hparent))
          have hblock : g.block b = .ok f := Table.demand_eq_ok_iff.2 hf
          simp only [hblock, ok_bind, owner?_eq hf]
          rfl

private theorem regionInsideWithin_eq_ok (ho : g.Owned) (ha : g.Acyclic) (target : Block)
    {steps : Nat} {r : Region} (hr : g.regions.contains r = true)
    (hsteps : countAround Node.region g g.regions.keys r < steps) :
    ∃ inside, g.regionInsideWithin target steps r = .ok inside ∧
      (inside = true ↔ g.Encloses (.block target) (.region r)) := by
  induction steps generalizing r with
  | zero => omega
  | succ steps ih =>
      rw [regionInsideWithin_succ ho target steps hr, encloses_region_iff ho]
      cases haround : g.blockAround? r with
      | none => exact ⟨false, rfl, by simp⟩
      | some b =>
          by_cases hb : b = target
          · exact ⟨true, if_pos hb, by simp [hb]⟩
          · simp only [if_neg hb]
            cases howner : g.owner? b with
            | none => exact ⟨false, rfl, by simp [hb, howner]⟩
            | some r' =>
                have hlive := ho.region_of_owner? howner
                have hstep : g.Encloses (.region r') (.region r) :=
                  TransGen.head (.block (ho.block.2 howner)) (encloses_of_blockAround? ho haround)
                have hfewer := countAround_lt Node.region ha
                  (Table.mem_keys_iff.2 (Table.contains_iff.1 hlive)) hstep
                obtain ⟨inside, hinside, hin⟩ := ih hlive (by omega)
                exact ⟨inside, hinside, hin.trans (by simp [hb, howner])⟩

/-- The walk up from a region ends, and tells whether the block is around it. -/
theorem regionInside_eq_ok (ho : g.Owned) (ha : g.Acyclic) {r : Region}
    (hr : g.regions.contains r = true) (target : Block) :
    ∃ inside, g.regionInside r target = .ok inside ∧
      (inside = true ↔ g.Encloses (.block target) (.region r)) := by
  refine regionInsideWithin_eq_ok ho ha target hr ?_
  have hle : countAround Node.region g g.regions.keys r ≤ g.regions.keys.length :=
    countBehind_le _ _ r
  rw [Table.length_keys] at hle
  omega

end Graph

end RegionIR
