import RegionIR.Proofs.Run.CycleChecks

/-!
# Appending to a module

An append has three parts: the body of the module is found or made, the symbol
is entered into the table, and the operation is placed behind the last one of
the body.  The symbol comes before the place, so an operation that has no
place there takes its symbol back.

Nothing else is taken back by this.  The symbol was entered by the same append,
under a name that was free.  Where the name was bound, be it to the operation
itself, the append has ended before it could enter anything.

A body that has to be made takes a handle.  Where none is left, the append ends
with a fault, whatever it was to append.

## Main results

* `Graph.BodyProvided` — a graph after the body was found or made.
* `Graph.Appended` — the entries of a graph after an append.
* `Reachable.appendEnds` — when an append is done, and what it leaves.
-/

namespace RegionIR

open Edit

variable {V : Type}

/-! ## What each part leaves -/

/-- The table with an entry for an operation, if that is a symbol. -/
def Graph.withEntry (g : Graph V) (o : Op) (t : Table String Op) : Table String Op :=
  match g.symbolName? o with
  | none => t
  | some name => t.insert name o

/-- A module has a body: the one it had, or a new block in a region that had none.  Operations,
values and the blocks from before are as they were. -/
structure Graph.BodyProvided (g : Graph V) (m : Op) (b : Block) (g' : Graph V) : Prop where
  body : g'.moduleBody? m = .ok (some b)
  found : ∀ {b'}, g.moduleBody? m = .ok (some b') → b' = b ∧ g' = g
  made : g.moduleBody? m = .ok none → ∃ r, (g.regionsOf m).head? = some r ∧
    g.blocks.find? b = none ∧ g' = g.addBody r b
  ops : g'.ops = g.ops
  values : g'.values = g.values
  block : ∀ {x}, g.blocks.contains x = true → g'.blocks.find? x = g.blocks.find? x

/-- An operation has become the last one of a block, and if it is a symbol, then a table has an
entry for it.  Nothing else has changed. -/
structure Graph.Appended (g : Graph V) (m o : Op) (t : Table String Op) (b : Block)
    (g' : Graph V) : Prop where
  values : g'.values = g.values
  regions : g'.regions = g.regions
  last : ∃ d ops, g.blocks.find? b = some d ∧ g'.blocks.find? b = some { d with ops := ops } ∧
    ops.items = d.ops.items ++ [o]
  block : ∀ {x}, x ≠ b → g'.blocks.find? x = g.blocks.find? x
  op : ∀ x, g'.ops.find? x = (g.ops.find? x).map fun d =>
    { d with
      parent := if x = o then some b else d.parent
      symbols := if x = m then some (g.withEntry o t) else d.symbols }

namespace Graph

variable {g : Graph V} {m o : Op} {b : Block}

theorem BodyProvided.ofFound (h : g.moduleBody? m = .ok (some b)) : g.BodyProvided m b g where
  body := h
  found := by
    intro b' hb'
    cases h.symm.trans hb'
    exact ⟨rfl, rfl⟩
  made hnone := by cases h.symm.trans hnone
  ops := rfl
  values := rfl
  block _ := rfl

theorem BodyProvided.ofMade {r : Region} (h : g.moduleBody? m = .ok none)
    (hr : (g.regionsOf m).head? = some r) (hfresh : g.blocks.find? b = none) :
    g.BodyProvided m b (g.addBody r b) where
  body := moduleBody?_addBody h hr b
  found hsome := by cases h.symm.trans hsome
  made _ := ⟨r, hr, hfresh, rfl⟩
  ops := rfl
  values := rfl
  block := by
    intro x hx
    have hne : x ≠ b := by
      rintro rfl
      rw [Table.contains, hfresh] at hx
      cases hx
    simp [addBody, addBlock, placeBlock, Table.find?_modify, Table.find?_insert, hne, hne.symm]

/-- Where an entity is nested does not depend on tables. -/
theorem within_setTable (m : Op) (t : Table String Op) (x y : Node) :
    (g.setTable m t).Within x y ↔ g.Within x y := by
  have hregions := regionsOf_setTable g m t
  have hholds : (g.setTable m t).Holds = g.Holds := by
    funext x y
    refine propext ⟨fun h => ?_, fun h => ?_⟩
    · exact h.of_lists (fun _ _ hmem => hmem) (fun _ _ hmem => hmem)
        fun o r hmem => hregions o ▸ hmem
    · exact h.of_lists (fun _ _ hmem => hmem) (fun _ _ hmem => hmem)
        fun o r hmem => (hregions o).symm ▸ hmem
  rw [Within, hholds, Within]

theorem Owned.appended (h : g.Owned) (hb : g.blocks.contains b = true)
    (hfree : g.parent? o = none) (m : Op) (t : Table String Op) :
    g.Appended m o t b ((g.setTable m (g.withEntry o t)).placeOp b (g.opsIn b).length o) := by
  obtain ⟨d, hd⟩ := Table.contains_iff.1 hb
  have hnot : o ∉ d.ops.items := opsIn_eq hd ▸ h.not_mem_opsIn hfree b
  exact {
    values := rfl
    regions := rfl
    last := by
      refine ⟨d, d.ops.place d.ops.items.length o, hd, ?_, ?_⟩
      · simp [Graph.placeOp, Graph.setTable, Table.find?_modify, hd, opsIn_eq hd]
      · rw [Roster.items_place hnot, List.take_length, List.drop_length]
    block := by
      intro x hne
      simp [Graph.placeOp, Graph.setTable, Table.find?_modify, hne]
    op := by
      intro x
      simp only [Graph.placeOp, Graph.setTable, ops_modifyOp, ops_modifyBlock, Table.find?_modify]
      cases g.ops.find? x with
      | none => by_cases hxo : x = o <;> by_cases hxm : x = m <;> simp_all
      | some e => by_cases hxo : x = o <;> by_cases hxm : x = m <;> simp_all }

end Graph

/-! ## How the parts run -/

variable {s : Store V} {m o : Op} {b : Block} {t : Table String Op}

/-- The body of a module with a region is found or made. -/
theorem run_moduleBodyOrNew (hs : s.Sound) (hregion : s.graph.regionsOf m ≠ [])
    (hroom : RoomForBody s m) :
    ∃ b s', (moduleBodyOrNew m).run s = .done b s' ∧ s.Leads s' ∧
      s.graph.BodyProvided m b s'.graph := by
  refine (faultless_moduleBodyOrNew hs hregion hroom).of_ends
    (P := fun out => ∃ b s', out = .done b s' ∧ s.Leads s' ∧
      s.graph.BodyProvided m b s'.graph) ?_
  refine ends_moduleBodyOrNew hs (fun b hbody => ?_) fun r s' _ hbody hr hmade hleads => ?_
  · exact ⟨b, s, rfl, .refl s, .ofFound hbody⟩
  · have hfresh := hs.bounded.fresh_block (b := ⟨s.next.block⟩) (Nat.le_refl _)
    refine ⟨_, s', rfl, hleads, ?_⟩
    rw [hmade]
    exact .ofMade hbody hr hfresh

/-- Without a handle for the body that it has to make, an append ends there. -/
theorem run_appendToModule_of_no_room (hregion : s.graph.regionsOf m ≠ [])
    (hno : ¬ RoomForBody s m) (o : Op) :
    (appendToModule m o).run s = .fault (.overflow .add) := by
  obtain ⟨hbody, hno⟩ := Classical.not_imp.1 hno
  obtain ⟨d, hd⟩ := Table.contains_iff.1 (Graph.contains_of_regionsOf hregion)
  rw [Graph.regionsOf_eq hd] at hregion
  have hmake : (moduleBodyOrNew m).run s = .fault (.overflow .add) := by
    rw [moduleBodyOrNew, run_ask_bind hbody]
    dsimp only
    rw [run_ask_bind (Table.demand_eq_ok_iff.2 hd), List.head?_eq_some_head hregion]
    exact Action.run_bind_of_fault _ (run_newBlock_of_no_room hno)
  rw [appendToModule_eq]
  exact Action.run_bind_of_fault _ hmake

/-- With a table to enter it into, a symbol is refused just if its name is bound. -/
theorem run_insertSymbol_eq_done_iff (ht : s.graph.table? m = some t)
    (ho : s.graph.ops.contains o = true) {name : String}
    (hname : s.graph.symbolName? o = some name) {s' : Store V} :
    (insertSymbol m o).run s = .done () s' ↔
      t.find? name = none ∧ s' = ⟨s.graph.setTable m (t.insert name o), s.next⟩ := by
  obtain ⟨d, hd, -⟩ := Option.bind_eq_some_iff.1 ht
  refine (faultless_insertSymbol (Table.contains_iff.2 ⟨d, hd⟩) ho).of_ends
    (P := fun out => out = .done () s' ↔ _) (ends_insertSymbol ?_ ?_)
  · intro t' name' ht' hname' hfree
    cases ht.symm.trans ht'
    cases hname.symm.trans hname'
    simp [hfree, eq_comm]
  · intro hbound e
    exact iff_of_false (by simp) fun h => hbound t name ht hname h.1

/-- The operation is placed in the graph where its symbol is entered already. -/
theorem run_placeInModule_eq_done_iff (hs : s.Sound) {d : OpData V}
    (hd : s.graph.ops.find? o = some d) (ht : s.graph.table? m = some t) {s' : Store V} :
    (placeInModule m o b).run s = .done () s' ↔
      (.symbol ∈ d.traits → ∃ name, d.symbolName? = some name ∧ t.find? name = none) ∧
        (pushOpBack b o).run ⟨s.graph.setTable m (s.graph.withEntry o t), s.next⟩ =
          .done () s' := by
  have hname := Graph.symbolName?_eq hd
  rw [placeInModule, run_ask_bind (Table.demand_eq_ok_iff.2 hd)]
  by_cases hsymbol : .symbol ∈ d.traits
  · obtain ⟨name, hnamed⟩ := (hs.lawful.op hd).met _ hsymbol
    have htrait : d.hasTrait .symbol = true := decide_eq_true hsymbol
    have hentry : s.graph.withEntry o t = t.insert name o := by
      rw [Graph.withEntry, hname, if_pos htrait, hnamed]
    rw [if_pos htrait, Action.run_bind_eq_done_iff, hentry]
    simp only [run_insertSymbol_eq_done_iff ht (Table.contains_iff.2 ⟨d, hd⟩)
      (hname.trans ((if_pos htrait).trans hnamed)), Action.run_orUndo_eq_done_iff]
    constructor
    · rintro ⟨_, _, ⟨hfree, rfl⟩, hpush⟩
      exact ⟨fun _ => ⟨name, hnamed, hfree⟩, hpush⟩
    · rintro ⟨hfree, hpush⟩
      obtain ⟨name', hnamed', hfree⟩ := hfree hsymbol
      cases hnamed.symm.trans hnamed'
      exact ⟨(), _, ⟨hfree, rfl⟩, hpush⟩
  · have htrait : ¬ d.hasTrait .symbol = true := fun htrait => hsymbol (of_decide_eq_true htrait)
    have hentry : s.graph.withEntry o t = t := by
      rw [Graph.withEntry, hname, if_neg htrait]
    rw [if_neg htrait, Action.run_orUndo_eq_done_iff, hentry, Graph.setTable_self ht]
    exact ⟨fun hpush => ⟨fun h => absurd h hsymbol, hpush⟩, fun h => h.2⟩

/-- To enter a symbol under its name keeps a store sound. -/
theorem leads_withEntry (ht : s.graph.table? m = some t) (o : Op) :
    s.Leads ⟨s.graph.setTable m (s.graph.withEntry o t), s.next⟩ := by
  unfold Graph.withEntry
  split
  · rw [Graph.setTable_self ht]
    exact .refl s
  · rename_i name hname
    exact (Store.Leads.refl s).change (.insertSymbol ht hname)

/-- With the body at hand, an append asks for a free name and for a place behind the others. -/
theorem run_placeInModule_iff (hs : s.Sound) (hb : s.graph.blocks.contains b = true)
    {d : OpData V} (hd : s.graph.ops.find? o = some d) (ht : s.graph.table? m = some t)
    (s' : Store V) :
    (placeInModule m o b).run s = .done () s' ↔
      (d.parent = none ∧ ¬ s.graph.Within (.block b) (.op o) ∧
        (.symbol ∈ d.traits → ∃ name, d.symbolName? = some name ∧ t.find? name = none)) ∧
      s' = ⟨(s.graph.setTable m (s.graph.withEntry o t)).placeOp b (s.graph.opsIn b).length o,
        s.next⟩ := by
  have hentered := hs.leads (leads_withEntry ht o)
  have ho : (s.graph.setTable m (s.graph.withEntry o t)).ops.contains o = true :=
    (Table.contains_modify s.graph.ops m o _).trans (Table.contains_iff.2 ⟨d, hd⟩)
  rw [run_placeInModule_eq_done_iff hs hd ht, run_pushOpBack_eq_done_iff hentered hb ho]
  dsimp only
  rw [Graph.parent?_setTable, Graph.parent?_eq hd, Graph.within_setTable]
  exact ⟨fun ⟨hfree, ⟨hparent, hapart⟩, heq⟩ => ⟨⟨hparent, hapart, hfree⟩, heq⟩,
    fun ⟨⟨hparent, hapart, hfree⟩, heq⟩ => ⟨hfree, ⟨hparent, hapart⟩, heq⟩⟩

/-! ## The guarantee -/

/-- How an append ends.  The graph `g` is the one in which the module has its body `b`; a refusal
leaves this graph, and so it leaves all tables and the lists of all blocks from before. -/
structure AppendEnds (s : Store V) (m o : Op) (d : OpData V) (t : Table String Op) (b : Block)
    (g : Graph V) : Prop where
  body : s.graph.BodyProvided m b g
  done : (∃ s', (appendToModule m o).run s = .done () s') ↔
    d.parent = none ∧ ¬ g.Within (.block b) (.op o) ∧
      (.symbol ∈ d.traits → ∃ name, d.symbolName? = some name ∧ t.find? name = none)
  of_done : ∀ {s'}, (appendToModule m o).run s = .done () s' → g.Appended m o t b s'.graph
  of_refused : ∀ {e s'}, (appendToModule m o).run s = .refused e s' → s'.graph = g
  ne_fault : ∀ c, (appendToModule m o).run s ≠ .fault c

theorem exists_appendEnds (hs : s.Sound) {d : OpData V} (hregion : s.graph.regionsOf m ≠ [])
    (ht : s.graph.table? m = some t) (hd : s.graph.ops.find? o = some d)
    (hroom : RoomForBody s m) : ∃ b g, AppendEnds s m o d t b g := by
  obtain ⟨b, s₁, hrun, hleads, hbody⟩ := run_moduleBodyOrNew hs hregion hroom
  have hs₁ := hs.leads hleads
  have hb := Graph.contains_of_moduleBody? hs₁.owned hbody.body
  have hd₁ : s₁.graph.ops.find? o = some d := by rw [hbody.ops, hd]
  have ht₁ : s₁.graph.table? m = some t := by rw [Graph.table?, hbody.ops, ← ht, Graph.table?]
  have hsplit : (appendToModule m o).run s = (placeInModule m o b).run s₁ := by
    rw [appendToModule_eq, Action.run_bind_of_done _ hrun]
  have hplace := run_placeInModule_iff hs₁ hb hd₁ ht₁
  refine ⟨b, s₁.graph, ⟨hbody, ?_, fun hdone => ?_, fun hrefused => ?_, fun c => ?_⟩⟩
  · rw [hsplit]
    constructor
    · rintro ⟨s', hdone⟩
      exact ((hplace s').1 hdone).1
    · exact fun hmay => ⟨_, (hplace _).2 ⟨hmay, rfl⟩⟩
  · rw [hsplit] at hdone
    obtain ⟨⟨hfree, -, -⟩, rfl⟩ := (hplace _).1 hdone
    exact hs₁.owned.appended hb ((Graph.parent?_eq hd₁).trans hfree) m t
  · have hatomic := atomicFrom_placeInModule hs₁ m o b
    rw [AtomicFrom, ← hsplit, hrefused] at hatomic
    exact hatomic.graph
  · have ho : s.graph.ops.contains o = true := Table.contains_iff.2 ⟨d, hd⟩
    exact (faultless_appendToModule hs hregion hroom ho).never_fault c

/-- An append to a module with a region and a table is done just if the operation is free, the body
is not within it, and its name is free if it is a symbol.  A body that has to be made needs a handle
first. -/
theorem Reachable.appendEnds [OpVerifier V] (h : Reachable s) {d : OpData V}
    (hregion : s.graph.regionsOf m ≠ []) (ht : s.graph.table? m = some t)
    (hd : s.graph.ops.find? o = some d) :
    (RoomForBody s m → ∃ b g, AppendEnds s m o d t b g) ∧
      (¬ RoomForBody s m → (appendToModule m o).run s = .fault (.overflow .add)) :=
  ⟨exists_appendEnds h.sound hregion ht hd, fun hno => run_appendToModule_of_no_room hregion hno o⟩

/-- A module without a body whose table lists a function, and an operation that is no symbol. -/
def Store.listed : Store DialectVerifier :=
  let attrs : AttributeMap := .ofList [(OpTrait.symbolAttribute, ⟨default, default, .str "main"⟩)]
  Command.play [
    .newModule,
    .create { name := "test.func", attrs := attrs, traits := [.symbol] },
    .insertSymbol ⟨1⟩ ⟨2⟩,
    .create { name := "test.op" }] {}

/-- The function is refused and stays in the table that it was in before.  The other operation
becomes the last one of a new body. -/
theorem Reachable.appendEnds_listed : Reachable Store.listed ∧
    Store.listed.graph.regionsOf ⟨1⟩ ≠ [] ∧ ∃ t, Store.listed.graph.table? ⟨1⟩ = some t ∧
      (Store.listed.graph.ops.contains ⟨2⟩ = true ∧ ∃ e s',
        (appendToModule ⟨1⟩ ⟨2⟩).run Store.listed = .refused e s' ∧
          s'.graph.ops = Store.listed.graph.ops ∧ t.find? "main" = some ⟨2⟩) ∧
      (Store.listed.graph.ops.contains ⟨3⟩ = true ∧ ∃ b g s',
        (appendToModule ⟨1⟩ ⟨3⟩).run Store.listed = .done () s' ∧
          Store.listed.graph.BodyProvided ⟨1⟩ b g ∧ g.Appended ⟨1⟩ ⟨3⟩ t b s'.graph) := by
  have hreachable : Reachable Store.listed := (Reachable.start {} (by decide)).play _
  have hroom : RoomForBody Store.listed ⟨1⟩ := fun _ => by decide +kernel
  have hregion : Store.listed.graph.regionsOf ⟨1⟩ ≠ [] := by decide +kernel
  have hmain : (Store.listed.graph.table? ⟨1⟩).bind (fun t => t.find? "main") = some ⟨2⟩ := by
    decide +kernel
  obtain ⟨t, ht, hmain⟩ := Option.bind_eq_some_iff.1 hmain
  have ho : Store.listed.graph.ops.contains ⟨2⟩ = true := by decide +kernel
  have ho' : Store.listed.graph.ops.contains ⟨3⟩ = true := by decide +kernel
  have hrefused : (appendToModule ⟨1⟩ ⟨2⟩).run Store.listed =
      .refused (.duplicateSymbol "main" ⟨2⟩)
        ⟨Store.listed.graph.addBody ⟨1⟩ ⟨1⟩, { Store.listed.next with block := 2 }⟩ := by
    decide +kernel
  have hdone : (appendToModule ⟨1⟩ ⟨3⟩).run Store.listed =
      .done () ⟨(Store.listed.graph.addBody ⟨1⟩ ⟨1⟩).placeOp ⟨1⟩ 0 ⟨3⟩,
        { Store.listed.next with block := 2 }⟩ := by
    decide +kernel
  obtain ⟨d, hd⟩ := Table.contains_iff.1 ho
  obtain ⟨d', hd'⟩ := Table.contains_iff.1 ho'
  obtain ⟨b, g, hends⟩ := (Reachable.appendEnds hreachable hregion ht hd).1 hroom
  obtain ⟨b', g', hends'⟩ := (Reachable.appendEnds hreachable hregion ht hd').1 hroom
  refine ⟨hreachable, hregion, t, ht, ⟨ho, _, _, hrefused, ?_, hmain⟩, ho', b', g', _, hdone,
    hends'.body, hends'.of_done hdone⟩
  rw [hends.of_refused hrefused, hends.body.ops]

end RegionIR
