import RegionIR.Edit.Region
import RegionIR.Proofs.Edit.Basic
import RegionIR.Proofs.Graph.Walks

/-!
# Edits of regions and their blocks

A region is cleared block by block, and each block is still owned by the
region when its turn comes, since the list names no block twice.

A region that is made together with its blocks is undone in two steps, which
clear it and drop it.  Nothing that is placed in the region or taken out of it
changes the graph without the region, so this graph is carried along, from
the empty region to the cleared one.

That no step of the two meets a fault needs the region and the blocks in the
graph from the first step to the last (`Present`).

## Main results

* `atomicFrom_insertBlock`, `atomicFrom_removeBlock`, `grantedFrom_clearRegion`
* `atomicFrom_newRegionWith` — a region whose blocks can not all be placed.
* `faultless_insertBlock`, `faultless_clearRegion`, `faultless_newRegionWith`, …
-/

namespace RegionIR.Edit

open RegionIR.Action Relation

variable {V : Type} {s : Store V} {done : Unit → Store V → Prop}
  {refused : EditError → Store V → Prop}

/-! ## New regions -/

theorem ends_newRegion {done : Region → Store V → Prop} :
    ((newRegion : Edit V Region).run s).Ends done refused ↔ (s.next.Room .region 1 →
      done ⟨s.next.region⟩
        ⟨s.graph.addRegion ⟨s.next.region⟩, { s.next with region := s.next.region + 1 }⟩) := by
  rw [newRegion, ends_bind, ends_freshRegion]
  simp only [ends_bind, ends_putRegion, ends_pure]
  rfl

theorem run_newRegion_of_no_room (h : ¬ s.next.Room .region 1) :
    (newRegion : Edit V Region).run s = .fault (.overflow .add) := run_fresh_bind_of_no_room h _

theorem faultless_newRegion :
    ((newRegion : Edit V Region).run s).Faultless ↔ s.next.Room .region 1 := by
  rw [newRegion, faultless_bind, faultless_freshRegion, ends_freshRegion]
  exact and_iff_left fun _ => trivial

theorem leads_addRegion (h : s.next.Room .region 1) : s.Leads
    ⟨s.graph.addRegion ⟨s.next.region⟩, { s.next with region := s.next.region + 1 }⟩ :=
  Store.Leads.grow (.refl s) (NextHandles.le_set h)
    (.addRegion (Nat.le_refl _) (Nat.lt_succ_self _))

theorem grantedFrom_newRegion (s : Store V) : GrantedFrom newRegion s := by
  rw [GrantedFrom, ends_newRegion]
  exact leads_addRegion

/-! ## Placing blocks -/

/-- A block is placed unless it has an owner, the region ends before the position, or the region
is within the block. -/
theorem ends_insertBlock (hs : s.Sound) {r : Region} {i : Nat} {b : Block}
    (howned : ∀ r', s.graph.owner? b = some r' → refused (.blockAlreadyOwned b r') s)
    (hrange : s.graph.owner? b = none → (s.graph.blocksIn r).length < i →
      refused (.outOfRange .blocks i (s.graph.blocksIn r).length) s)
    (hcycle : s.graph.owner? b = none → i ≤ (s.graph.blocksIn r).length →
      s.graph.Within (.region r) (.block b) → refused (.blockCycle b r) s)
    (hdone : s.graph.owner? b = none → i ≤ (s.graph.blocksIn r).length →
      ¬ s.graph.Within (.region r) (.block b) → s.graph.regions.contains r = true →
        s.graph.blocks.contains b = true → done () ⟨s.graph.placeBlock r i b, s.next⟩) :
    ((insertBlock r i b).run s).Ends done refused := by
  rw [insertBlock, ends_bind, ends_ask]
  intro e he
  have howner := Graph.owner?_eq (Table.demand_eq_ok_iff.1 he)
  cases hfree : e.owner with
  | some r' => exact howned r' (howner.trans hfree)
  | none =>
      have hfree := howner.trans hfree
      simp only [ends_bind, ends_ask, ends_ite, ends_ofExcept, ends_refuse, ends_updateRegion,
        ends_updateBlock]
      intro d hd
      have hfind := Table.demand_eq_ok_iff.1 hd
      rw [Graph.blocksIn_eq hfind] at hrange hcycle hdone
      refine ⟨hrange hfree, fun hle inside hinside => ?_⟩
      obtain ⟨inside', hinside', hiff⟩ :=
        Graph.regionInside_eq_ok hs.owned hs.acyclic (Table.contains_iff.2 ⟨d, hfind⟩) b
      cases hinside.symm.trans hinside'
      rw [← Graph.region_within_block_iff] at hiff
      rw [hiff]
      refine ⟨hcycle hfree (Nat.not_lt.1 hle), fun hapart blocks hblocks hr hb => ?_⟩
      rw [Graph.placeBlock_of_insertAt hfind hblocks]
      exact hdone hfree (Nat.not_lt.1 hle) hapart hr hb

/-- Placing a block is a change, wherever it is done. -/
theorem ends_insertBlock_change (hs : s.Sound) {r : Region} {i : Nat} {b : Block}
    (hdone : s.graph.owner? b = none →
      Graph.Change s.next s.next s.graph (s.graph.placeBlock r i b) →
        done () ⟨s.graph.placeBlock r i b, s.next⟩)
    (hrefused : ∀ e, refused e s) : ((insertBlock r i b).run s).Ends done refused := by
  refine ends_insertBlock hs (fun _ _ => hrefused _) (fun _ _ => hrefused _)
    (fun _ _ _ => hrefused _) fun hfree _ hapart hr hb => ?_
  exact hdone hfree (.placeBlock i hr hb hfree hapart)

theorem atomicFrom_insertBlock (hs : s.Sound) (r : Region) (i : Nat) (b : Block) :
    AtomicFrom (insertBlock r i b) s :=
  ends_insertBlock_change hs (fun _ hc => Store.Leads.change (.refl s) hc) fun _ => .refl s

theorem atomicFrom_pushBlockFront (hs : s.Sound) (r : Region) (b : Block) :
    AtomicFrom (pushBlockFront r b) s :=
  atomicFrom_insertBlock hs r 0 b

theorem atomicFrom_pushBlockBack (hs : s.Sound) (r : Region) (b : Block) :
    AtomicFrom (pushBlockBack r b) s :=
  .ask fun d _ => atomicFrom_insertBlock hs r d.blocks.length b

/-! ## Taking blocks -/

theorem ends_detachBlock (r : Region) (b : Block) :
    ((detachBlock r b).run s).Ends done refused ↔
      (s.graph.regions.contains r = true → s.graph.blocks.contains b = true →
        done () ⟨s.graph.takeBlock r b, s.next⟩) := by
  rw [detachBlock]
  simp only [ends_bind, ends_updateBlock, ends_updateRegion]
  rfl

theorem atomicFrom_removeBlock (r : Region) (b : Block) : AtomicFrom (removeBlock r b) s := by
  refine AtomicFrom.ask fun d hd => ?_
  have howner := Graph.owner?_eq (Table.demand_eq_ok_iff.1 hd)
  rw [AtomicFrom, ends_ite]
  refine ⟨fun hr => ?_, fun _ => .refl s⟩
  rw [ends_detachBlock]
  exact fun _ _ => Store.Leads.change (.refl s) (.takeBlock (howner.trans hr))

/-- A loop that detaches blocks of a region releases just these. -/
theorem ends_forEach_detachBlock {r : Region} {l : List Block} (hnodup : l.Nodup)
    (howned : ∀ b ∈ l, s.graph.owner? b = some r) :
    ((forEach l (detachBlock r) : Edit V Unit).run s).Ends
      (fun _ s' => s.Leads s' ∧ s'.graph.withoutRegion r = s.graph.withoutRegion r ∧
        ∀ b, s'.graph.owner? b = some r → s.graph.owner? b = some r ∧ b ∉ l)
      fun _ _ => False := by
  induction l generalizing s with
  | nil => exact ⟨.refl s, rfl, fun b hb => ⟨hb, List.not_mem_nil⟩⟩
  | cons b rest ih =>
      obtain ⟨hnot, hrest⟩ := List.nodup_cons.1 hnodup
      rw [forEach_cons, ends_bind, ends_detachBlock]
      intro _ _
      have htaken := Store.Leads.change (.refl s)
        (.takeBlock (howned b List.mem_cons_self))
      have hstill : ∀ b' ∈ rest, (s.graph.takeBlock r b).owner? b' = some r := by
        intro b' hb'
        have hne : b' ≠ b := fun heq => hnot (heq ▸ hb')
        rw [Graph.owner?_takeBlock, if_neg hne]
        exact howned b' (List.mem_cons_of_mem b hb')
      refine (ih hrest hstill).mono (fun _ s' hs' => ?_) fun _ _ hfalse => hfalse
      obtain ⟨hleads, hwithout, hback⟩ := hs'
      refine ⟨htaken.trans hleads, ?_, fun b' hb' => ?_⟩
      · exact hwithout.trans (Graph.withoutRegion_takeBlock (howned b List.mem_cons_self))
      · obtain ⟨howner, hout⟩ := hback b' hb'
        rw [Graph.owner?_takeBlock] at howner
        split at howner
        · cases howner
        · rename_i hne
          refine ⟨howner, fun hmem => ?_⟩
          rcases List.mem_cons.1 hmem with heq | hmem
          · exact hne heq
          · exact hout hmem

/-- A cleared region owns no block, and the graph without it is as before. -/
theorem ends_clearRegion (hs : s.Sound) (r : Region) :
    ((clearRegion r).run s).Ends
      (fun _ s' => s.Leads s' ∧ s'.graph.withoutRegion r = s.graph.withoutRegion r ∧
        ∀ b, s'.graph.owner? b ≠ some r) fun _ _ => False := by
  rw [clearRegion]
  simp only [ends_bind, ends_ask]
  intro d hd
  have hblocks := Graph.blocksIn_eq (Table.demand_eq_ok_iff.1 hd)
  have howned : ∀ b ∈ d.blocks.items, s.graph.owner? b = some r := by
    intro b hb
    rw [← hblocks] at hb
    exact hs.owned.block.1 hb
  refine (ends_forEach_detachBlock d.blocks.nodup howned).mono (fun _ s' hs' => ?_) fun _ _ h => h
  obtain ⟨hleads, hwithout, hback⟩ := hs'
  refine ⟨hleads, hwithout, fun b hb => ?_⟩
  obtain ⟨howner, hout⟩ := hback b hb
  rw [← hblocks] at hout
  exact hout (hs.owned.block.2 howner)

theorem grantedFrom_clearRegion (hs : s.Sound) (r : Region) : GrantedFrom (clearRegion r) s :=
  (ends_clearRegion hs r).mono (fun _ _ h => h.1) fun _ _ h => h

/-! ## Regions with their blocks -/

/-- Placing blocks in a region leaves the graph without it as it was. -/
theorem ends_forEach_pushBlockBack (hs : s.Sound) (r : Region) (blocks : List Block) :
    ((forEach blocks (pushBlockBack r) : Edit V Unit).run s).Ends
      (fun _ s' => s.Leads s' ∧ s'.graph.withoutRegion r = s.graph.withoutRegion r)
      fun _ s' => s.Leads s' ∧ s'.graph.withoutRegion r = s.graph.withoutRegion r := by
  refine ends_forEach_of_invariant (fun b _ s' hs' => ?_) ⟨.refl s, rfl⟩
  obtain ⟨hleads, hwithout⟩ := hs'
  rw [pushBlockBack, ends_bind, ends_ask]
  intro d _
  refine ends_insertBlock_change (hs.leads hleads) (fun hfree hc => ⟨hleads.change hc, ?_⟩)
    fun _ => ⟨hleads, hwithout⟩
  exact (Graph.withoutRegion_placeBlock hfree _).trans hwithout

theorem atomicFrom_newRegionWith (hs : s.Sound) (blocks : List Block) :
    AtomicFrom (newRegionWith blocks) s := by
  have hfresh := hs.bounded.fresh_region (r := ⟨s.next.region⟩) (Nat.le_refl _)
  have hunowned : ∀ b, s.graph.owner? b ≠ some ⟨s.next.region⟩ := by
    intro b hb
    have hlive := hs.owned.region_of_owner? hb
    rw [Table.contains, hfresh] at hlive
    cases hlive
  rw [AtomicFrom, newRegionWith, ends_bind, ends_newRegion]
  intro hroom
  have hnew := leads_addRegion hroom
  rw [ends_bind, ends_orUndo]
  refine (ends_forEach_pushBlockBack (hs.leads hnew) _ blocks).mono
    (fun _ _ hplaced => hnew.trans hplaced.1) fun _ s₁ hplaced => ?_
  obtain ⟨hs₁, hfilled⟩ := hplaced
  rw [ends_bind]
  refine (ends_clearRegion ((hs.leads hnew).leads hs₁) _).mono (fun _ s₂ hcleared => ?_)
    fun _ _ hfalse => hfalse.elim
  obtain ⟨hs₂, hemptied, hout⟩ := hcleared
  rw [ends_dropRegion]
  refine ⟨?_, ((hnew.trans hs₁).trans hs₂).next_le⟩
  calc s₂.graph.dropRegion ⟨s.next.region⟩
      = s₂.graph.withoutRegion ⟨s.next.region⟩ := (Graph.withoutRegion_eq_dropRegion hout).symm
    _ = s₁.graph.withoutRegion ⟨s.next.region⟩ := hemptied
    _ = (s.graph.addRegion ⟨s.next.region⟩).withoutRegion ⟨s.next.region⟩ := hfilled
    _ = (s.graph.addRegion ⟨s.next.region⟩).dropRegion ⟨s.next.region⟩ :=
        Graph.withoutRegion_eq_dropRegion hunowned
    _ = s.graph := Graph.dropRegion_addRegion hfresh

/-! ## Edits that meet no fault -/

theorem faultless_insertBlock (hs : s.Sound) {r : Region} {b : Block}
    (hr : s.graph.regions.contains r = true) (hb : s.graph.blocks.contains b = true) (i : Nat) :
    ((insertBlock r i b).run s).Faultless := by
  obtain ⟨d, hd⟩ := Table.contains_iff.1 hr
  obtain ⟨e, he⟩ := Table.contains_iff.1 hb
  rw [insertBlock, faultless_ask_bind (Table.demand_eq_ok_iff.2 he)]
  cases hfree : e.owner with
  | some owner => trivial
  | none =>
      have hnot := hs.owned.not_mem_blocksIn ((Graph.owner?_eq he).trans hfree) r
      rw [Graph.blocksIn_eq hd] at hnot
      obtain ⟨blocks, hblocks, -⟩ := Roster.items_insertAt (l := d.blocks) hnot i
      obtain ⟨inside, hinside, -⟩ := Graph.regionInside_eq_ok hs.owned hs.acyclic hr b
      dsimp only
      rw [faultless_ask_bind (Table.demand_eq_ok_iff.2 hd), faultless_ite]
      refine ⟨fun _ => trivial, fun _ => ?_⟩
      rw [faultless_ask_bind hinside, faultless_ite]
      refine ⟨fun _ => trivial, fun _ => ?_⟩
      rw [hblocks, faultless_bind, ends_ofExcept]
      refine ⟨trivial, fun _ _ => ?_⟩
      rw [faultless_bind, faultless_updateRegion, ends_updateRegion]
      exact ⟨hr, fun _ => (faultless_updateBlock b _).2 hb⟩

/-- A block is pushed to where the list of the region ends. -/
theorem run_pushBlockBack {r : Region} (hr : s.graph.regions.contains r = true) (b : Block) :
    (pushBlockBack r b).run s = (insertBlock r (s.graph.blocksIn r).length b).run s := by
  obtain ⟨d, hd⟩ := Table.contains_iff.1 hr
  rw [pushBlockBack, run_ask_bind (Table.demand_eq_ok_iff.2 hd), Graph.blocksIn_eq hd]
  rfl

theorem faultless_pushBlockBack (hs : s.Sound) {r : Region} {b : Block}
    (hr : s.graph.regions.contains r = true) (hb : s.graph.blocks.contains b = true) :
    ((pushBlockBack r b).run s).Faultless := by
  rw [run_pushBlockBack hr]
  exact faultless_insertBlock hs hr hb _

theorem faultless_detachBlock {r : Region} {b : Block}
    (hr : s.graph.regions.contains r = true) (hb : s.graph.blocks.contains b = true) :
    ((detachBlock r b).run s).Faultless := by
  rw [detachBlock, faultless_bind, faultless_updateRegion, ends_updateRegion]
  exact ⟨hr, fun _ => (faultless_updateBlock b _).2 hb⟩

theorem faultless_removeBlock {r : Region} {b : Block}
    (hr : s.graph.regions.contains r = true) (hb : s.graph.blocks.contains b = true) :
    ((removeBlock r b).run s).Faultless := by
  obtain ⟨e, he⟩ := Table.contains_iff.1 hb
  rw [removeBlock, faultless_ask_bind (Table.demand_eq_ok_iff.2 he), faultless_ite]
  exact ⟨fun _ => faultless_detachBlock hr hb, fun _ => trivial⟩

/-- A region and some blocks are in the graph. -/
structure Present (r : Region) (blocks : List Block) (g : Graph V) : Prop where
  region : g.regions.contains r = true
  block : ∀ b ∈ blocks, g.blocks.contains b = true

theorem Present.takeBlock {r : Region} {blocks : List Block} {g : Graph V}
    (h : Present r blocks g) (b : Block) : Present r blocks (g.takeBlock r b) where
  region := (Graph.live_takeBlock (x := .region r) r b).2 h.region
  block b' hb' := (Graph.live_takeBlock (x := .block b') r b).2 (h.block b' hb')

theorem Present.placeBlock {r : Region} {blocks : List Block} {g : Graph V}
    (h : Present r blocks g) (i : Nat) (b : Block) : Present r blocks (g.placeBlock r i b) where
  region := (Graph.live_placeBlock (x := .region r) r i b).2 h.region
  block b' hb' := (Graph.live_placeBlock (x := .block b') r i b).2 (h.block b' hb')

theorem faultless_clearRegion (hs : s.Sound) {r : Region}
    (hr : s.graph.regions.contains r = true) : ((clearRegion r).run s).Faultless := by
  obtain ⟨d, hd⟩ := Table.contains_iff.1 hr
  have hpresent : Present r d.blocks.items s.graph := by
    refine ⟨hr, fun b hb => hs.owned.block_of_mem_blocksIn (r := r) ?_⟩
    rw [Graph.blocksIn_eq hd]
    exact hb
  rw [clearRegion, faultless_ask_bind (Table.demand_eq_ok_iff.2 hd)]
  refine faultless_forEach_of_invariant (I := fun s' => Present r d.blocks.items s'.graph)
    (fun b hb s' hs' => ?_) hpresent
  rw [ends_detachBlock]
  exact ⟨faultless_detachBlock hs'.region (hs'.block b hb), fun _ _ => hs'.takeBlock b⟩

/-- A block that is placed, or refused, leaves the region and all blocks in the graph. -/
theorem ends_pushBlockBack_present (hs : s.Sound) {r : Region} {blocks : List Block}
    (hp : Present r blocks s.graph) (b : Block) :
    ((pushBlockBack r b).run s).Ends (fun _ s' => s'.Sound ∧ Present r blocks s'.graph)
      fun _ s' => s'.Sound ∧ Present r blocks s'.graph := by
  rw [pushBlockBack, ends_bind, ends_ask]
  intro d _
  refine ends_insertBlock_change hs (fun _ hc => ?_) fun _ => ⟨hs, hp⟩
  exact ⟨hs.leads (Store.Leads.change (.refl s) hc), hp.placeBlock _ b⟩

/-- What is undone after a refusal is a step like any other, and meets no fault either. -/
theorem faultless_newRegionWith (hs : s.Sound) (hroom : s.next.Room .region 1)
    {blocks : List Block} (hblocks : ∀ b ∈ blocks, s.graph.blocks.contains b = true) :
    ((newRegionWith blocks : Edit V Region).run s).Faultless := by
  have hnew := hs.leads (leads_addRegion hroom)
  have hlive : (s.graph.addRegion ⟨s.next.region⟩).regions.contains ⟨s.next.region⟩ = true :=
    Table.contains_insert.2 (Or.inl rfl)
  rw [newRegionWith, faultless_bind, faultless_newRegion, ends_newRegion]
  refine ⟨hroom, fun _ => ?_⟩
  rw [faultless_bind_pure, faultless_orUndo]
  constructor
  · refine faultless_forEach_of_invariant
      (I := fun s' => s'.Sound ∧ Present ⟨s.next.region⟩ blocks s'.graph)
      (fun b hb s' hs' => ?_) ⟨hnew, hlive, hblocks⟩
    refine ⟨faultless_pushBlockBack hs'.1 hs'.2.region (hs'.2.block b hb), ?_⟩
    exact (ends_pushBlockBack_present hs'.1 hs'.2 b).mono (fun _ _ h => h) fun _ _ _ => trivial
  · have hloop := ends_forEach_of_invariant (l := blocks)
      (fun b _ s' hs' => ends_pushBlockBack_present (V := V) hs'.1 hs'.2 b) ⟨hnew, hlive, hblocks⟩
    refine hloop.mono (fun _ _ _ => trivial) fun _ s' hs' => ?_
    rw [faultless_bind]
    refine ⟨faultless_clearRegion hs'.1 hs'.2.region, ?_⟩
    exact (ends_clearRegion hs'.1 _).mono (fun _ _ _ => trivial) fun _ _ h => h.elim

end RegionIR.Edit
