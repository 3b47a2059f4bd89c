import RegionIR.Edit.Module
import RegionIR.Proofs.Edit.Argument
import RegionIR.Proofs.Edit.Create
import RegionIR.Proofs.Edit.Region
import RegionIR.Proofs.Edit.Symbol

/-!
# Edits of modules

These edits are made of others, and what they undo after a refusal is a step
like any other: a region that the failed creation has left free is dropped,
and a name is removed from a table that it was new to.

An operation is appended in two parts.  The first finds the body of the
module, or makes one, and is never refused.  The second enters the symbol and
places the operation, and leaves no trace when it is refused.  The body that
the first part has made is not undone.

A body can be made only in a region.  This is the one thing that these edits
expect of a module beyond its being in the graph.

## Main results

* `atomicFrom_newModule`
* `ends_moduleBodyOrNew` — the body that is found or made.
* `atomicFrom_placeInModule` — the second part of an append.
* `ends_appendToModule` — what is left after an append that is refused.
* `faultless_newModule`, `faultless_moduleBodyOrNew`, `faultless_appendToModule`
-/

namespace RegionIR

namespace Graph

variable {V : Type} {g : Graph V}

/-- The graph with a new block as the first of a region. -/
def addBody (g : Graph V) (r : Region) (b : Block) : Graph V := (g.addBlock b).placeBlock r 0 b

theorem contains_addBody (g : Graph V) (r : Region) (b : Block) :
    (g.addBody r b).blocks.contains b = true := by
  show ((g.blocks.insert b {}).modify b _).contains b = true
  rw [Table.contains_modify, Table.contains, Table.find?_insert, if_pos rfl]
  rfl

/-- A body that is missing belongs to a region without blocks, if there is a region. -/
theorem blocksIn_eq_nil_of_moduleBody? {m : Op} (h : g.moduleBody? m = .ok none) {r : Region}
    (hr : (g.regionsOf m).head? = some r) : g.blocksIn r = [] := by
  obtain ⟨d, hd, h⟩ := bind_eq_ok_iff.1 h
  rw [regionsOf_eq (Table.demand_eq_ok_iff.1 hd)] at hr
  rw [hr] at h
  obtain ⟨e, he, h⟩ := bind_eq_ok_iff.1 h
  rw [blocksIn_eq (Table.demand_eq_ok_iff.1 he)]
  exact List.head?_eq_none_iff.1 (Except.ok.inj h)

/-- A new body is the first block of a region that had none. -/
theorem moduleBody?_addBody {m : Op} {r : Region} (h : g.moduleBody? m = .ok none)
    (hr : (g.regionsOf m).head? = some r) (b : Block) :
    (g.addBody r b).moduleBody? m = .ok (some b) := by
  have hempty := blocksIn_eq_nil_of_moduleBody? h hr
  obtain ⟨d, hd, h⟩ := bind_eq_ok_iff.1 h
  have hhead : d.regions.head? = some r := by
    rw [← hr, regionsOf_eq (Table.demand_eq_ok_iff.1 hd)]
  rw [hhead] at h
  obtain ⟨e, he, -⟩ := bind_eq_ok_iff.1 h
  have hfind : g.regions.find? r = some e := Table.demand_eq_ok_iff.1 he
  have hitems : e.blocks.items = [] := (blocksIn_eq hfind).symm.trans hempty
  have hop : (g.addBody r b).op m = .ok d := hd
  have hregion : (g.addBody r b).region r = .ok { e with blocks := e.blocks.place 0 b } := by
    apply Table.demand_eq_ok_iff.2
    simp [addBody, addBlock, placeBlock, Table.find?_modify, hfind]
  have hnot : b ∉ e.blocks.items := by
    rw [hitems]
    exact List.not_mem_nil
  unfold moduleBody?
  rw [hop, ok_bind, hhead]
  dsimp only
  rw [hregion, ok_bind]
  show Except.ok (e.blocks.place 0 b).items.head? = _
  rw [Roster.items_place hnot, hitems]
  rfl

/-- An operation with a region is in the graph. -/
theorem contains_of_regionsOf {m : Op} (h : g.regionsOf m ≠ []) : g.ops.contains m = true := by
  obtain ⟨r, hr⟩ := List.exists_mem_of_ne_nil _ h
  exact contains_of_mem_regionsOf hr

/-- The body of a module can be asked for. -/
theorem exists_moduleBody? (ho : g.Owned) {m : Op} (hm : g.ops.contains m = true) :
    ∃ body, g.moduleBody? m = .ok body := by
  obtain ⟨d, hd⟩ := Table.contains_iff.1 hm
  unfold moduleBody?
  rw [show g.op m = .ok d from Table.demand_eq_ok_iff.2 hd, ok_bind]
  cases hr : d.regions.head? with
  | none => exact ⟨none, rfl⟩
  | some r =>
      have hmem : r ∈ g.regionsOf m := regionsOf_eq hd ▸ List.mem_of_head? hr
      obtain ⟨e, he⟩ := Table.contains_iff.1 (ho.region_of_mem_regionsOf hmem)
      dsimp only
      rw [show g.region r = .ok e from Table.demand_eq_ok_iff.2 he, ok_bind]
      exact ⟨_, rfl⟩

/-- A body is a block of the graph. -/
theorem contains_of_moduleBody? (ho : g.Owned) {m : Op} {b : Block}
    (h : g.moduleBody? m = .ok (some b)) : g.blocks.contains b = true := by
  obtain ⟨d, hd, h⟩ := bind_eq_ok_iff.1 h
  cases hr : d.regions.head? with
  | none =>
      rw [hr] at h
      cases h
  | some r =>
      rw [hr] at h
      obtain ⟨e, he, h⟩ := bind_eq_ok_iff.1 h
      have hfront : e.blocks.items.head? = some b := Except.ok.inj h
      refine ho.block_of_mem_blocksIn (r := r) ?_
      rw [blocksIn_eq (Table.demand_eq_ok_iff.1 he)]
      exact List.mem_of_head? hfront

/-- A new block has nothing in it. -/
theorem not_encloses_addBlock {b : Block} (hb : g.blocks.find? b = none) (x : Node) :
    ¬ (g.addBlock b).Encloses (.block b) x := by
  intro hin
  obtain ⟨y, hy, -⟩ := Relation.TransGen.head'_iff.1 hin
  obtain ⟨o, -, ho⟩ := block_holds_iff.1 hy
  rw [opsIn_addBlock hb, opsIn, hb] at ho
  cases ho

end Graph

namespace Edit

open RegionIR.Action

variable {V : Type} {s : Store V}

/-! ## New modules -/

/-- A module that can not be created leaves its region free, and the region is dropped again. -/
theorem atomicFrom_newModule [OpVerifier V] (hs : s.Sound) : AtomicFrom newModule s := by
  have hfresh := hs.bounded.fresh_region (r := ⟨s.next.region⟩) (Nat.le_refl _)
  rw [AtomicFrom, newModule, ends_bind, ends_newRegion]
  intro hroom
  have hnew := leads_addRegion hroom
  rw [ends_orUndo]
  refine (atomicFrom_createOf (hs.leads hnew) .module [] .empty [⟨s.next.region⟩] none).mono
    (fun _ _ hs' => hnew.trans hs') fun _ s' hs' => ?_
  rw [ends_dropRegion]
  refine ⟨?_, (hnew.trans hs'.leads).next_le⟩
  dsimp only
  rw [hs'.graph]
  exact Graph.dropRegion_addRegion hfresh

/-! ## The body of a module -/

/-- There is a handle for the body of a module, if it has to be made. -/
def RoomForBody (s : Store V) (m : Op) : Prop :=
  s.graph.moduleBody? m = .ok none → s.next.Room .block 1

/-- The body is there, or a new block is placed in the first region. -/
theorem ends_moduleBodyOrNew (hs : s.Sound) {m : Op} {done : Block → Store V → Prop}
    {refused : EditError → Store V → Prop}
    (hfound : ∀ b, s.graph.moduleBody? m = .ok (some b) → done b s)
    (hmade : ∀ r s', s.next.Room .block 1 → s.graph.moduleBody? m = .ok none →
      (s.graph.regionsOf m).head? = some r → s'.graph = s.graph.addBody r ⟨s.next.block⟩ →
        s.Leads s' → done ⟨s.next.block⟩ s') :
    ((moduleBodyOrNew m).run s).Ends done refused := by
  rw [moduleBodyOrNew, ends_bind, ends_ask]
  intro body hbody
  cases body with
  | some b => exact hfound b hbody
  | none =>
      dsimp only
      rw [ends_bind, ends_ask]
      intro d hd
      have hregions := Graph.regionsOf_eq (Table.demand_eq_ok_iff.1 hd)
      cases hr : d.regions.head? with
      | none => trivial
      | some r =>
          dsimp only
          have hr : (s.graph.regionsOf m).head? = some r := by rw [hregions, hr]
          have hfresh := hs.bounded.fresh_block (b := ⟨s.next.block⟩) (Nat.le_refl _)
          rw [ends_bind, ends_newBlock]
          intro hroom
          have hnew := leads_addBlock hroom
          rw [ends_bind, pushBlockBack, ends_bind, ends_ask]
          intro e he
          have hempty := Graph.blocksIn_eq_nil_of_moduleBody? hbody hr
          have hlength : e.blocks.length = 0 := by
            have hblocks : s.graph.blocksIn r = e.blocks.items :=
              Graph.blocksIn_eq (Table.demand_eq_ok_iff.1 he)
            rw [Roster.length, ← hblocks, hempty, List.length_nil]
          rw [hlength]
          -- Nothing speaks against a block that has just been made.
          refine ends_insertBlock (hs.leads hnew) (fun r' hr' => ?_)
            (fun _ hshort => absurd hshort (Nat.not_lt_zero _)) (fun _ _ hin => ?_)
            fun hfree _ hapart hr' hb => ?_
          · rw [Graph.owner?_addBlock hfresh, Graph.owner?, hfresh] at hr'
            cases hr'
          · rcases (Graph.region_within_block_iff).1 hin with hin
            exact absurd hin (Graph.not_encloses_addBlock hfresh _)
          · exact hmade r _ hroom hbody hr rfl (hnew.change (.placeBlock 0 hr' hb hfree hapart))

theorem grantedFrom_moduleBodyOrNew (hs : s.Sound) (m : Op) :
    GrantedFrom (moduleBodyOrNew m) s :=
  ends_moduleBodyOrNew hs (fun _ _ => .refl s) fun _ _ _ _ _ _ hs' => hs'

/-! ## Appending to a module -/

/-- What an append does once the body is there. -/
def placeInModule (m o : Op) (body : Block) : Edit V Unit := do
  let d ← ask fun g => g.op o
  if d.hasTrait .symbol then
    insertSymbol m o
  .orUndo (pushOpBack body o) (do
    withdrawSymbol m (← ask fun g => g.op o))

theorem appendToModule_eq (m o : Op) :
    (appendToModule m o : Edit V Unit) = moduleBodyOrNew m >>= placeInModule m o := rfl

/-- The name of an operation is dropped from the table of the module, if it defines a symbol. -/
theorem ends_withdrawSymbol {m o : Op} {done : Unit → Store V → Prop}
    {refused : EditError → Store V → Prop}
    (hnone : s.graph.symbolName? o = none → done () s)
    (hsome : ∀ name, s.graph.symbolName? o = some name → ∃ t, s.graph.table? m = some t ∧
      done () ⟨s.graph.setTable m (t.erase name), s.next⟩) :
    ((do withdrawSymbol m (← ask fun g => g.op o) : Edit V Unit).run s).Ends done refused := by
  rw [ends_bind, ends_ask]
  intro d hd
  have hname := Graph.symbolName?_eq (Table.demand_eq_ok_iff.1 hd)
  rw [withdrawSymbol]
  cases hsymbol : if d.hasTrait .symbol then d.symbolName? else none with
  | none => exact hnone (hname.trans hsymbol)
  | some name =>
      obtain ⟨t, ht, hdone⟩ := hsome name (hname.trans hsymbol)
      dsimp only
      rw [ends_bind]
      refine ends_removeSymbol (fun t' ht' => ?_) fun hno => ?_
      · cases ht.symm.trans ht'
        exact hdone
      · cases ht.symm.trans hno

/-- An operation that can not be placed leaves no name behind in the table. -/
theorem atomicFrom_placeInModule (hs : s.Sound) (m o : Op) (body : Block) :
    AtomicFrom (placeInModule m o body) s := by
  rw [AtomicFrom, placeInModule, ends_bind, ends_ask]
  intro d hd
  have hname := Graph.symbolName?_eq (Table.demand_eq_ok_iff.1 hd)
  dsimp only
  split
  · rename_i hsymbol
    rw [ends_bind]
    refine ends_insertSymbol (fun t name ht hnamed hnew => ?_) fun _ _ => .refl s
    have hentered := (Store.Leads.refl s).change (.insertSymbol ht hnamed)
    rw [ends_orUndo]
    refine (atomicFrom_pushOpBack (hs.leads hentered) body o).mono
      (fun _ _ hs' => hentered.trans hs') fun e s' hs' => ?_
    obtain ⟨g', n'⟩ := s'
    obtain ⟨rfl, hle⟩ := hs'
    refine ends_withdrawSymbol (fun hno => ?_) fun name' hname' => ?_
    · cases hno.symm.trans ((Graph.symbolName?_setTable _ _ _ _).trans hnamed)
    · cases ((Graph.symbolName?_setTable _ _ _ _).trans hnamed).symm.trans hname'
      refine ⟨t.insert name o, Graph.table?_setTable ht _, ?_, hle⟩
      dsimp only
      rw [Table.erase_insert hnew]
      exact Graph.setTable_setTable ht _
  · rename_i hplain
    have hno : s.graph.symbolName? o = none := by rw [hname, if_neg hplain]
    rw [ends_orUndo]
    refine (atomicFrom_pushOpBack hs body o).mono (fun _ _ hs' => hs') fun e s' hs' => ?_
    obtain ⟨g', n'⟩ := s'
    obtain ⟨rfl, hle⟩ := hs'
    refine ends_withdrawSymbol (fun _ => ⟨rfl, hle⟩) fun name hname' => ?_
    cases hno.symm.trans hname'

/-- What an append that is refused leaves behind: the graph with a body in the module. -/
inductive LeftByAppend (s : Store V) (m : Op) (g' : Graph V) : Prop where
  | found {b : Block} (hbody : s.graph.moduleBody? m = .ok (some b)) (hg : g' = s.graph)
  | made {r : Region} (hbody : s.graph.moduleBody? m = .ok none)
      (hr : (s.graph.regionsOf m).head? = some r)
      (hg : g' = s.graph.addBody r ⟨s.next.block⟩)

theorem ends_appendToModule (hs : s.Sound) (m o : Op) :
    ((appendToModule m o).run s).Ends (fun _ s' => s.Leads s')
      fun _ s' => s.Leads s' ∧ LeftByAppend s m s'.graph := by
  rw [appendToModule_eq, ends_bind]
  refine ends_moduleBodyOrNew hs (fun body hbody => ?_) fun r s₁ _ hbody hr hmade hs₁ => ?_
  · refine (atomicFrom_placeInModule hs m o body).mono (fun _ _ hs' => hs') fun _ _ hs' => ?_
    exact ⟨hs'.leads, .found hbody hs'.graph⟩
  · refine (atomicFrom_placeInModule (hs.leads hs₁) m o _).mono
      (fun _ _ hs' => hs₁.trans hs') fun _ _ hs' => ?_
    exact ⟨hs₁.trans hs'.leads, .made hbody hr (hs'.graph.trans hmade)⟩

/-! ## Edits that meet no fault -/

theorem faultless_newModule [OpVerifier V] (hs : s.Sound) (hregion : s.next.Room .region 1)
    (hop : s.next.RoomFor 0) : ((newModule : Edit V Op).run s).Faultless := by
  have hnew := hs.leads (leads_addRegion hregion)
  rw [newModule, faultless_bind, faultless_newRegion, ends_newRegion]
  refine ⟨hregion, fun _ => ?_⟩
  rw [faultless_orUndo]
  refine ⟨faultless_createOf hnew fun _ => ⟨[], rfl, ⟨hop.op, hop.value⟩, fun v hv => ?_⟩, ?_⟩
  · cases hv
  · exact ((Outcome.ends_true _).2 trivial).mono (fun _ _ _ => trivial) fun _ _ _ => trivial

theorem faultless_moduleBodyOrNew (hs : s.Sound) {m : Op} (hregion : s.graph.regionsOf m ≠ [])
    (hroom : RoomForBody s m) : ((moduleBodyOrNew m).run s).Faultless := by
  obtain ⟨body, hbody⟩ := Graph.exists_moduleBody? hs.owned (Graph.contains_of_regionsOf hregion)
  rw [moduleBodyOrNew, faultless_ask_bind hbody]
  cases body with
  | some b => trivial
  | none =>
      obtain ⟨d, hd⟩ := Table.contains_iff.1 (Graph.contains_of_regionsOf hregion)
      rw [Graph.regionsOf_eq hd] at hregion
      obtain ⟨r, hr⟩ := List.exists_mem_of_ne_nil _ hregion
      dsimp only
      rw [faultless_ask_bind (Table.demand_eq_ok_iff.2 hd)]
      cases hhead : d.regions.head? with
      | none =>
          rw [List.head?_eq_none_iff.1 hhead] at hr
          cases hr
      | some r' =>
          have hmem : r' ∈ s.graph.regionsOf m :=
            Graph.regionsOf_eq hd ▸ List.mem_of_head? hhead
          dsimp only
          rw [faultless_bind, faultless_newBlock, ends_newBlock]
          refine ⟨hroom hbody, fun hroom => ?_⟩
          rw [faultless_bind_pure]
          refine faultless_pushBlockBack (hs.leads (leads_addBlock hroom)) ?_ ?_
          · exact hs.owned.region_of_mem_regionsOf hmem
          · exact Table.contains_insert.2 (Or.inl rfl)

theorem faultless_withdrawSymbol {m o : Op} (hm : s.graph.ops.contains m = true)
    (ho : s.graph.ops.contains o = true) :
    ((do withdrawSymbol m (← ask fun g => g.op o) : Edit V Unit).run s).Faultless := by
  obtain ⟨d, hd⟩ := Table.contains_iff.1 ho
  rw [faultless_ask_bind (Table.demand_eq_ok_iff.2 hd), withdrawSymbol]
  cases if d.hasTrait .symbol then d.symbolName? else none with
  | none => trivial
  | some name => exact (faultless_bind_pure _ _).2 (faultless_removeSymbol hm name)

/-- The undoing looks up the operation and the table again.  Both are still there. -/
theorem faultless_placeInModule (hs : s.Sound) {m o : Op} {body : Block}
    (hm : s.graph.ops.contains m = true) (ho : s.graph.ops.contains o = true)
    (hbody : s.graph.blocks.contains body = true) :
    ((placeInModule m o body).run s).Faultless := by
  have hplace : ∀ s' : Store V, s'.Sound → s'.graph.ops.contains m = true →
      s'.graph.ops.contains o = true → s'.graph.blocks.contains body = true →
        ((Action.orUndo (pushOpBack body o) (do
          withdrawSymbol m (← ask fun g => g.op o)) : Edit V Unit).run s').Faultless := by
    intro s' hs' hm' ho' hbody'
    rw [faultless_orUndo]
    refine ⟨faultless_pushOpBack hs' hbody' ho', ?_⟩
    refine (atomicFrom_pushOpBack hs' body o).mono (fun _ _ _ => trivial) fun _ s'' hs'' => ?_
    rw [← hs''.graph] at hm' ho'
    exact faultless_withdrawSymbol hm' ho'
  obtain ⟨d, hd⟩ := Table.contains_iff.1 ho
  rw [placeInModule, faultless_ask_bind (Table.demand_eq_ok_iff.2 hd), faultless_ite]
  refine ⟨fun _ => ?_, fun _ => hplace s hs hm ho hbody⟩
  rw [faultless_bind]
  refine ⟨faultless_insertSymbol hm ho, ends_insertSymbol (fun t name ht hname _ => ?_)
    fun _ _ => trivial⟩
  have hentered := (Store.Leads.refl s).change (.insertSymbol ht hname)
  refine hplace _ (hs.leads hentered) ?_ ?_ hbody
  · exact (Table.contains_modify s.graph.ops m m _).trans hm
  · exact (Table.contains_modify s.graph.ops m o _).trans ho

theorem faultless_appendToModule (hs : s.Sound) {m o : Op} (hregion : s.graph.regionsOf m ≠ [])
    (hroom : RoomForBody s m) (ho : s.graph.ops.contains o = true) :
    ((appendToModule m o).run s).Faultless := by
  have hm := Graph.contains_of_regionsOf hregion
  rw [appendToModule_eq, faultless_bind]
  refine ⟨faultless_moduleBodyOrNew hs hregion hroom,
    ends_moduleBodyOrNew hs (fun body hbody => ?_) fun r s₁ _ _ _ hmade hs₁ => ?_⟩
  · exact faultless_placeInModule hs hm ho (Graph.contains_of_moduleBody? hs.owned hbody)
  · refine faultless_placeInModule (hs.leads hs₁) ?_ ?_ ?_
    · rw [hmade]
      exact hm
    · rw [hmade]
      exact ho
    · rw [hmade]
      exact Graph.contains_addBody s.graph r _

end Edit

end RegionIR
