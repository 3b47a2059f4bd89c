import RegionIR.Proofs.Run.Guarantees

/-!
# Regions made with their blocks

A new region takes in the blocks of a list one by one.  Each round is checked
like any other placement, but only one of the checks can speak against it: the
region is nested nowhere yet, so it is in none of the blocks, and the position
is the end of its list.

What is left is the owner of the block.  A block that stands in the list twice
is refused on its second turn for the same reason, as it is owned by then by the
new region itself.  The error names that region although nobody gets to see it:
it is emptied and dropped, and the blocks from before are free again.

The handle of the region is drawn before the first round, so the blocks have no
part in it when there is none left.

## Main results

* `Graph.Filled` — the entries of a graph with the new region.
* `Graph.FirstTaken` — the block that is refused.
* `ends_forEach_pushBlockBack_filled` — the rounds, from any of them on.
* `Reachable.newRegionEnds` — all blocks are placed, or nothing is changed.
-/

namespace RegionIR

open Edit Relation

variable {V : Type}

namespace Graph

/-! ## What the rounds leave -/

/-- A new region lists some blocks, and these name it as their owner.  Nothing else differs. -/
structure Filled (g : Graph V) (r : Region) (blocks : List Block) (g' : Graph V) : Prop where
  ops : g'.ops = g.ops
  values : g'.values = g.values
  fresh : g.regions.find? r = none
  region : ∃ d, g'.regions.find? r = some d ∧ d.blocks.items = blocks ∧ d.parent = none
  other : ∀ {x}, x ≠ r → g'.regions.find? x = g.regions.find? x
  block : ∀ x, g'.blocks.find? x =
    (g.blocks.find? x).map fun d => if x ∈ blocks then { d with owner := some r } else d

/-- Blocks that no region owns, each of them once. -/
structure Vacant (g : Graph V) (blocks : List Block) : Prop where
  nodup : blocks.Nodup
  free : ∀ b ∈ blocks, g.owner? b = none

/-- The first block of a list that has an owner on its turn: the one that it had before, or the
new region, which owns the blocks of all earlier turns. -/
def FirstTaken (g : Graph V) (r : Region) (blocks : List Block) (b : Block) (owner : Region) :
    Prop :=
  ∃ before behind, blocks = before ++ b :: behind ∧ g.Vacant before ∧
    (g.owner? b = some owner ∨ (b ∈ before ∧ owner = r))

variable {g g' : Graph V} {r : Region} {before blocks : List Block} {b : Block}

theorem Vacant.nil (g : Graph V) : g.Vacant [] := ⟨List.nodup_nil, fun _ h => by cases h⟩

theorem Vacant.append (h : g.Vacant before) (hfree : g.owner? b = none) (hnew : b ∉ before) :
    g.Vacant (before ++ [b]) where
  nodup := by
    refine List.nodup_append.2 ⟨h.nodup, List.pairwise_singleton _ b, fun x hx y hy heq => ?_⟩
    exact hnew (List.mem_singleton.1 hy ▸ heq ▸ hx)
  free := by
    intro x hx
    rcases List.mem_append.1 hx with hx | hx
    · exact h.free x hx
    · exact List.mem_singleton.1 hx ▸ hfree

/-- A list with a block that is taken is not vacant. -/
theorem FirstTaken.not_vacant {owner : Region} (h : g.FirstTaken r blocks b owner) :
    ¬ g.Vacant blocks := by
  obtain ⟨before, behind, rfl, -, howner⟩ := h
  intro hvacant
  rcases howner with howner | ⟨hmem, -⟩
  · have hfree := hvacant.free b (List.mem_append_right _ List.mem_cons_self)
    cases hfree.symm.trans howner
  · exact (List.nodup_append.1 hvacant.nodup).2.2 b hmem b List.mem_cons_self rfl

namespace Filled

theorem addRegion (hfresh : g.regions.find? r = none) : g.Filled r [] (g.addRegion r) where
  ops := rfl
  values := rfl
  fresh := hfresh
  region := ⟨{}, by rw [Graph.addRegion, Table.find?_insert, if_pos rfl], rfl, rfl⟩
  other hne := by rw [Graph.addRegion, Table.find?_insert, if_neg (Ne.symm hne)]
  block x := by simp [Graph.addRegion]

/-- The owner of a block on its turn. -/
theorem owner?_eq_some (h : g.Filled r before g') {owner : Region}
    (howner : g'.owner? b = some owner) : g.owner? b = some owner ∨ (b ∈ before ∧ owner = r) := by
  obtain ⟨d', hd', howner⟩ := Option.bind_eq_some_iff.1 howner
  rw [h.block] at hd'
  obtain ⟨d, hd, rfl⟩ := Option.map_eq_some_iff.1 hd'
  by_cases hmem : b ∈ before
  · rw [if_pos hmem] at howner
    exact Or.inr ⟨hmem, (Option.some.inj howner).symm⟩
  · rw [if_neg hmem] at howner
    exact Or.inl ((owner?_eq hd).trans howner)

/-- A block without an owner on its turn had none before, and it is its first turn. -/
theorem of_owner?_eq_none (h : g.Filled r before g') (hb : g'.blocks.contains b = true)
    (hfree : g'.owner? b = none) : g.owner? b = none ∧ b ∉ before := by
  obtain ⟨d', hd'⟩ := Table.contains_iff.1 hb
  rw [owner?_eq hd'] at hfree
  rw [h.block] at hd'
  obtain ⟨d, hd, rfl⟩ := Option.map_eq_some_iff.1 hd'
  by_cases hmem : b ∈ before
  · rw [if_pos hmem] at hfree
    cases hfree
  · rw [if_neg hmem] at hfree
    exact ⟨(owner?_eq hd).trans hfree, hmem⟩

theorem blocksIn_eq (h : g.Filled r before g') : g'.blocksIn r = before := by
  obtain ⟨d, hd, hblocks, -⟩ := h.region
  rw [Graph.blocksIn_eq hd, hblocks]

theorem holder?_eq (h : g.Filled r before g') : g'.holder? r = none := by
  obtain ⟨d, hd, -, hparent⟩ := h.region
  rw [Graph.holder?_eq hd, hparent]

theorem placeBlock (h : g.Filled r before g') (hnew : b ∉ before) :
    g.Filled r (before ++ [b]) (g'.placeBlock r before.length b) where
  ops := h.ops
  values := h.values
  fresh := h.fresh
  region := by
    obtain ⟨d, hd, hblocks, hparent⟩ := h.region
    refine ⟨{ d with blocks := d.blocks.place before.length b }, ?_, ?_, hparent⟩
    · simp [Graph.placeBlock, Table.find?_modify, hd]
    · subst hblocks
      rw [Roster.items_place hnew, List.take_length, List.drop_length]
  other := by
    intro x hne
    rw [← h.other hne]
    simp [Graph.placeBlock, Table.find?_modify, hne]
  block := by
    intro x
    simp only [Graph.placeBlock, blocks_modifyBlock, blocks_modifyRegion, Table.find?_modify,
      h.block]
    by_cases hx : x = b
    · subst hx
      simp [hnew]
    · simp [hx]

end Filled

/-- A region that is in no operation is nested nowhere. -/
theorem Owned.not_within_of_holder? (h : g.Owned) (hr : g.holder? r = none) (b : Block) :
    ¬ g.Within (.region r) (.block b) := by
  intro hin
  rcases ReflTransGen.cases_tail hin with heq | ⟨x, -, hx⟩
  · cases heq
  · obtain ⟨o, -, hmem⟩ := holds_region_iff.1 hx
    cases hr.symm.trans (h.region.1 hmem)

end Graph

/-! ## How the rounds run -/

namespace Edit

open RegionIR.Action RegionIR.Graph

variable {g : Graph V} {s : Store V} {r : Region} {before : List Block}

/-- A block is placed if it has no owner on its turn, and else refused with this owner. -/
theorem ends_pushBlockBack_filled (hs : s.Sound) (h : g.Filled r before s.graph) (b : Block) :
    ((pushBlockBack r b).run s).Ends
      (fun _ s' => s'.Sound ∧ (g.owner? b = none ∧ b ∉ before) ∧
        g.Filled r (before ++ [b]) s'.graph)
      fun e s' => s'.Sound ∧ ∃ owner, (g.owner? b = some owner ∨ (b ∈ before ∧ owner = r)) ∧
        e = .blockAlreadyOwned b owner := by
  rw [pushBlockBack, ends_bind, ends_ask]
  intro d hd
  have hlength : d.blocks.length = (s.graph.blocksIn r).length := by
    rw [Graph.blocksIn_eq (Table.demand_eq_ok_iff.1 hd)]
    rfl
  rw [hlength]
  refine ends_insertBlock hs (fun owner howner => ?_) (fun _ hlt => ?_) (fun _ _ hin => ?_) ?_
  · exact ⟨hs, owner, h.owner?_eq_some howner, rfl⟩
  · exact absurd hlt (Nat.lt_irrefl _)
  · exact absurd hin (hs.owned.not_within_of_holder? h.holder?_eq b)
  · intro hfree _ hapart hr hb
    have hturn := h.of_owner?_eq_none hb hfree
    refine ⟨?_, hturn, ?_⟩
    · exact hs.leads (Store.Leads.change (.refl s) (.placeBlock _ hr hb hfree hapart))
    · rw [h.blocksIn_eq]
      exact h.placeBlock hturn.2

/-- From any round on, the blocks that are left are placed behind the others, or the first of them
that is taken is refused. -/
theorem ends_forEach_pushBlockBack_filled (hs : s.Sound) (h : g.Filled r before s.graph)
    (hvacant : g.Vacant before) (rest : List Block) :
    ((forEach rest (pushBlockBack r) : Edit V Unit).run s).Ends
      (fun _ s' => g.Vacant (before ++ rest) ∧ g.Filled r (before ++ rest) s'.graph)
      fun e s' => s'.Sound ∧ ∃ b owner, g.FirstTaken r (before ++ rest) b owner ∧
        e = .blockAlreadyOwned b owner := by
  induction rest generalizing before s with
  | nil =>
      rw [List.append_nil]
      exact ⟨hvacant, h⟩
  | cons b rest ih =>
      rw [forEach_cons, ends_bind]
      refine (ends_pushBlockBack_filled hs h b).mono (fun _ s' hplaced => ?_) fun e s' htaken => ?_
      · obtain ⟨hs', ⟨hfree, hnew⟩, hfilled⟩ := hplaced
        rw [List.append_cons]
        exact ih hs' hfilled (hvacant.append hfree hnew)
      · obtain ⟨hs', owner, howner, he⟩ := htaken
        exact ⟨hs', b, owner, ⟨before, rest, rfl, hvacant, howner⟩, he⟩

/-- Without a handle for the region, no block gets its turn. -/
theorem run_newRegionWith_of_no_room (h : ¬ s.next.Room .region 1) (blocks : List Block) :
    (newRegionWith blocks).run s = .fault (.overflow .add) :=
  run_bind_of_fault _ (run_newRegion_of_no_room h)

/-- The region is filled with all blocks, or one of them is taken. -/
theorem ends_newRegionWith (hs : s.Sound) (blocks : List Block) :
    ((newRegionWith blocks).run s).Ends
      (fun r s' => s.graph.Vacant blocks ∧ s.graph.Filled r blocks s'.graph)
      fun e _ => ∃ b owner, s.graph.FirstTaken ⟨s.next.region⟩ blocks b owner ∧
        e = .blockAlreadyOwned b owner := by
  have hfresh := hs.bounded.fresh_region (r := ⟨s.next.region⟩) (Nat.le_refl _)
  rw [newRegionWith, ends_bind, ends_newRegion]
  intro hroom
  have hnew := hs.leads (leads_addRegion hroom)
  rw [ends_bind, ends_orUndo]
  refine (ends_forEach_pushBlockBack_filled hnew (.addRegion hfresh) (.nil _) blocks).mono
    (fun _ _ hplaced => hplaced) fun e s' hrefused => ?_
  obtain ⟨hs', htaken⟩ := hrefused
  -- The undoing is not refused, so it is this error that comes out.
  rw [ends_bind]
  refine (ends_clearRegion hs' _).mono (fun _ s'' _ => ?_) fun _ _ h => h.elim
  rw [ends_dropRegion]
  exact htaken

end Edit

/-! ## The guarantee -/

/-- How a region is made with the blocks of a list, if there is a handle for it.  Either all of them
are placed, or the first one that is taken is refused and the graph is as before. -/
structure NewRegionEnds (s : Store V) (blocks : List Block) : Prop where
  done : s.next.Room .region 1 →
    ((∃ r s', (newRegionWith blocks).run s = .done r s') ↔ s.graph.Vacant blocks)
  of_done : ∀ {r s'}, (newRegionWith blocks).run s = .done r s' →
    s.graph.Filled r blocks s'.graph
  refused : s.next.Room .region 1 → ¬ s.graph.Vacant blocks → ∃ b owner s',
    s.graph.FirstTaken ⟨s.next.region⟩ blocks b owner ∧
      (newRegionWith blocks).run s = .refused (.blockAlreadyOwned b owner) s' ∧
      s'.graph = s.graph
  /-- The region is the first thing that is made. -/
  exhausted : ¬ s.next.Room .region 1 →
    (newRegionWith blocks).run s = .fault (.overflow .add)

variable {s : Store V} {blocks : List Block}

theorem newRegionEnds_of_room (hs : s.Sound) (hroom : s.next.Room .region 1)
    (hblocks : ∀ b ∈ blocks, s.graph.blocks.contains b = true) : NewRegionEnds s blocks := by
  have hfaultless := faultless_newRegionWith hs hroom hblocks
  have hends := ends_newRegionWith hs blocks
  have hatomic := atomicFrom_newRegionWith hs blocks
  rw [AtomicFrom] at hatomic
  cases hrun : (newRegionWith blocks).run s with
  | fault c => exact (hfaultless.never_fault c hrun).elim
  | done r s' =>
      rw [hrun] at hends
      obtain ⟨hvacant, hfilled⟩ := hends
      refine ⟨fun _ => iff_of_true ⟨r, s', hrun⟩ hvacant, fun hdone => ?_,
        fun _ hnot => absurd hvacant hnot, fun hno => absurd hroom hno⟩
      cases hrun.symm.trans hdone
      exact hfilled
  | refused e s' =>
      rw [hrun] at hends hatomic
      obtain ⟨b, owner, htaken, rfl⟩ := hends
      refine ⟨fun _ => iff_of_false ?_ htaken.not_vacant, fun hdone => ?_, fun _ _ => ?_,
        fun hno => absurd hroom hno⟩
      · rintro ⟨r, s'', hdone⟩
        cases hrun.symm.trans hdone
      · cases hrun.symm.trans hdone
      · exact ⟨b, owner, s', htaken, hrun, hatomic.graph⟩

/-- A region is made with all blocks of a list or with none. -/
theorem Reachable.newRegionEnds [OpVerifier V] (h : Reachable s)
    (hblocks : ∀ b ∈ blocks, s.graph.blocks.contains b = true) : NewRegionEnds s blocks := by
  by_cases hroom : s.next.Room .region 1
  · exact newRegionEnds_of_room h.sound hroom hblocks
  · have hrun := run_newRegionWith_of_no_room hroom blocks
    refine ⟨fun h => absurd h hroom, fun hdone => ?_, fun h => absurd h hroom, fun _ => hrun⟩
    cases hrun.symm.trans hdone

/-- Two blocks that are free, and a third one in a region. -/
def Store.parted : Store DialectVerifier :=
  Command.play [.newBlock, .newBlock, .newBlock, .newRegionWith [⟨3⟩]] {}

/-- The free blocks are placed in the order of the list.  A block that comes again is refused for
the region that was to be made, before the owned one that comes after it. -/
theorem Reachable.newRegionEnds_parted : Reachable Store.parted ∧
    (∀ b ∈ [⟨2⟩, ⟨1⟩, ⟨2⟩, ⟨3⟩], Store.parted.graph.blocks.contains b = true) ∧
    (∃ r s', (newRegionWith [⟨2⟩, ⟨1⟩]).run Store.parted = .done r s' ∧
      Store.parted.graph.Filled r [⟨2⟩, ⟨1⟩] s'.graph) ∧
    ∃ s', (newRegionWith [⟨2⟩, ⟨1⟩, ⟨2⟩, ⟨3⟩]).run Store.parted =
      .refused (.blockAlreadyOwned ⟨2⟩ ⟨2⟩) s' ∧ s'.graph = Store.parted.graph := by
  have hreachable : Reachable Store.parted := (Reachable.start {} (by decide)).play _
  have hroom : Store.parted.next.Room .region 1 := by decide +kernel
  have hblocks : ∀ b ∈ [⟨2⟩, ⟨1⟩, ⟨2⟩, ⟨3⟩], Store.parted.graph.blocks.contains b = true := by
    decide +kernel
  have hfree : Store.parted.graph.Vacant [⟨2⟩, ⟨1⟩] :=
    ⟨by decide, by decide +kernel⟩
  have hends : NewRegionEnds Store.parted [⟨2⟩, ⟨1⟩] :=
    Reachable.newRegionEnds hreachable fun b hb => hblocks b (List.mem_append_left _ hb)
  have hends' := Reachable.newRegionEnds hreachable hblocks
  have htwice : ¬ Store.parted.graph.Vacant [⟨2⟩, ⟨1⟩, ⟨2⟩, ⟨3⟩] :=
    fun hvacant => absurd hvacant.nodup (by decide)
  have hrun : (newRegionWith [⟨2⟩, ⟨1⟩, ⟨2⟩, ⟨3⟩]).run Store.parted =
      .refused (.blockAlreadyOwned ⟨2⟩ ⟨2⟩)
        ⟨Store.parted.graph, { Store.parted.next with region := 3 }⟩ := by
    decide +kernel
  obtain ⟨r, s', hdone⟩ := (hends.done hroom).2 hfree
  obtain ⟨b, owner, s'', -, hrefused, hgraph⟩ := hends'.refused hroom htwice
  cases hrun.symm.trans hrefused
  exact ⟨hreachable, hblocks, ⟨r, s', hdone, hends.of_done hdone⟩, _, hrun, hgraph⟩

end RegionIR
