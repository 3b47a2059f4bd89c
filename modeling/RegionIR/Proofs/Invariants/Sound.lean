import RegionIR.Proofs.Invariants.Bounds
import RegionIR.Proofs.Invariants.Laws
import RegionIR.Proofs.Invariants.Nesting
import RegionIR.Proofs.Invariants.Producers
import RegionIR.Proofs.Invariants.Symbols
import RegionIR.Proofs.Invariants.Uses

/-!
# Sound graphs and the changes that keep them sound

`Change` lists all that an edit can do to a graph, each with the conditions
under which it is done.  Counters stand before and after a change, and handles
that come into the graph lie in between.  An edit is a series of such changes.
What a change does is known from its constructor alone, so every invariant is
kept by a case split over this type, and a new edit made of the same changes
needs no new argument.

## Main results

* `Graph.Sound` — all invariants together.
* `Graph.Change` — the changes.
* `Sound.change`, `Store.Sound.leads` — one change and a series of them keep
  a graph sound.
-/

namespace RegionIR

variable {V : Type}

namespace Graph

/-- What holds of every graph that edits make, next to the present counters. -/
structure Sound (g : Graph V) (n : NextHandles) : Prop where
  owned : g.Owned
  acyclic : g.Acyclic
  uses : g.UsesMatch
  produced : g.Produced
  symbols : g.SymbolsNamed
  lawful : g.Lawful
  bounded : g.Bounded n

/-- What a new operation has to bring along.  Its handles lie between the counters. -/
structure Admits (g : Graph V) (n n' : NextHandles) (o : Op) (first : Nat) (types : List Ty)
    (d : OpData V) : Prop where
  op_ge : n.op ≤ o.num
  op_lt : o.num < n'.op
  results : d.results = resultHandles first types.length
  results_ge : ∀ v ∈ resultHandles first types.length, n.value ≤ v.num
  results_lt : ∀ v ∈ resultHandles first types.length, v.num < n'.value
  operands : ∀ v ∈ d.operands, (g.putResults o first types).values.contains v = true
  regions : ∀ r ∈ d.regions, g.regions.contains r = true ∧ g.holder? r = none
  regions_nodup : d.regions.Nodup
  successors : ∀ b ∈ d.successors, g.blocks.contains b = true
  parent : d.parent = none
  lawful : d.Lawful
  table : ∀ t, d.symbols = some t → t = .empty

/-- A subtree that may be cut out. -/
structure Cuttable (g : Graph V) (o : Op) (t : Subtree) (produced : List Value) : Prop where
  hangs : g.Hangs o t
  mem : ∀ v, v ∈ produced ↔
    (∃ o ∈ t.ops, v ∈ g.resultsOf o) ∨ ∃ b ∈ t.blocks, v ∈ g.argsOf b
  uses : ∀ {v l}, v ∈ produced → g.uses? v = some l → ∀ u ∈ l, u.user ∈ t.ops
  branches : ∀ {o d b}, g.ops.find? o = some d → o ∉ t.ops → b ∈ d.successors → b ∉ t.blocks

/-- One change of a graph, with the counters before and after it.  New handles lie in between. -/
inductive Change (n n' : NextHandles) : Graph V → Graph V → Prop where
  | addBlock {g b} (hge : n.block ≤ b.num) (hlt : b.num < n'.block) :
      Change n n' g (g.addBlock b)
  | addRegion {g r} (hge : n.region ≤ r.num) (hlt : r.num < n'.region) :
      Change n n' g (g.addRegion r)
  | putArgument {g b i arg} (ty : Ty) (hb : g.blocks.contains b = true)
      (hi : i ≤ (g.argsOf b).length) (hge : n.value ≤ arg.num) (hlt : arg.num < n'.value) :
      Change n n' g (g.putArgument b i arg ty)
  | dropArgument {g b i arg} (harg : (g.argsOf b)[i]? = some arg) :
      Change n n' g (g.dropArgument b i arg)
  | placeOp {g b o} (i : Nat) (hb : g.blocks.contains b = true)
      (ho : g.ops.contains o = true) (hfree : g.parent? o = none)
      (hapart : ¬ g.Within (.block b) (.op o)) : Change n n' g (g.placeOp b i o)
  | takeOp {g b o} (hparent : g.parent? o = some b) : Change n n' g (g.takeOp b o)
  | placeBlock {g r b} (i : Nat) (hr : g.regions.contains r = true)
      (hb : g.blocks.contains b = true) (hfree : g.owner? b = none)
      (hapart : ¬ g.Within (.region r) (.block b)) : Change n n' g (g.placeBlock r i b)
  | takeBlock {g r b} (howner : g.owner? b = some r) : Change n n' g (g.takeBlock r b)
  | fillSlot {g u old new} (hold : g.slot? u = some old)
      (hnew : g.values.contains new = true) : Change n n' g (g.fillSlot u old new)
  | create {g o first types d} (h : g.Admits n n' o first types d) :
      Change n n' g ((g.putResults o first types).linkOp o d)
  | insertSymbol {g o s t name} (ht : g.table? o = some t)
      (hs : g.symbolName? s = some name) : Change n n' g (g.setTable o (t.insert name s))
  | removeSymbol {g o t} (name : String) (ht : g.table? o = some t) :
      Change n n' g (g.setTable o (t.erase name))
  | prune {g o t produced} (h : g.Cuttable o t produced) : Change n n' g (g.prune o t produced)

namespace Sound

variable {g g' : Graph V} {n n' : NextHandles}

theorem empty (n : NextHandles) : Sound (Graph.empty : Graph V) n where
  owned := .empty
  acyclic := .empty
  uses := .empty
  produced := .empty
  symbols := .empty
  lawful := .empty
  bounded := .empty n

/-! ## Empty blocks and regions -/

theorem addBlock (h : Sound g n) {b : Block} (hb : g.blocks.find? b = none)
    (hlt : b.num < n.block) : Sound (g.addBlock b) n where
  owned := h.owned.congr (fun _ => rfl) (opsIn_addBlock hb) (owner?_addBlock hb) (fun _ => rfl)
    (fun _ => rfl) fun _ => rfl
  acyclic := h.acyclic.of_lists (fun b' _ hmem => opsIn_addBlock hb b' ▸ hmem)
    (fun _ _ hmem => hmem) fun _ _ hmem => hmem
  uses := h.uses.congr (fun _ => rfl) fun _ => rfl
  produced := h.produced.congr (fun _ => rfl) (argsOf_addBlock hb) fun _ => rfl
  symbols := h.symbols.congr (fun _ => rfl) fun _ => rfl
  lawful := by
    refine h.lawful.of_ops_eq rfl fun b' hb' => ?_
    rw [Table.contains, Graph.addBlock, Table.find?_insert]
    split
    · rfl
    · exact hb'
  bounded := by
    refine h.bounded.grow fun x hx => (live_addBlock.1 hx).imp_left ?_
    rintro rfl
    exact hlt

theorem addRegion (h : Sound g n) {r : Region} (hr : g.regions.find? r = none)
    (hlt : r.num < n.region) : Sound (g.addRegion r) n where
  owned := h.owned.congr (fun _ => rfl) (fun _ => rfl) (fun _ => rfl) (blocksIn_addRegion hr)
    (holder?_addRegion hr) fun _ => rfl
  acyclic := h.acyclic.of_lists (fun _ _ hmem => hmem)
    (fun r' _ hmem => blocksIn_addRegion hr r' ▸ hmem) fun _ _ hmem => hmem
  uses := h.uses.congr (fun _ => rfl) fun _ => rfl
  produced := h.produced.congr (fun _ => rfl) (fun _ => rfl) fun _ => rfl
  symbols := h.symbols.congr (fun _ => rfl) fun _ => rfl
  lawful := h.lawful.of_ops_eq rfl fun _ hb => hb
  bounded := by
    refine h.bounded.grow fun x hx => (live_addRegion.1 hx).imp_left ?_
    rintro rfl
    exact hlt

/-! ## Arguments -/

theorem putArgument (h : Sound g n) {b : Block} {i : Nat} {arg : Value} (ty : Ty)
    (hb : g.blocks.contains b = true) (hi : i ≤ (g.argsOf b).length)
    (harg : g.values.find? arg = none) (hlt : arg.num < n.value) :
    Sound (g.putArgument b i arg ty) n where
  owned := h.owned.congr (fun _ => rfl) (opsIn_putArgument g b i arg ty)
    (owner?_putArgument g b i arg ty) (fun _ => rfl) (fun _ => rfl) fun _ => rfl
  acyclic := h.acyclic.of_lists (fun b' _ hmem => opsIn_putArgument g b i arg ty b' ▸ hmem)
    (fun _ _ hmem => hmem) fun _ _ hmem => hmem
  uses := h.uses.putArgument harg b i ty
  produced := h.produced.putArgument hb hi harg ty
  symbols := h.symbols.congr (fun _ => rfl) fun _ => rfl
  lawful := by
    refine h.lawful.of_ops_eq rfl fun b' hb' => ?_
    show (g.blocks.modify b _).contains b' = true
    rw [Table.contains_modify]
    exact hb'
  bounded := by
    refine h.bounded.grow fun x hx => (live_putArgument.1 hx).imp_left ?_
    rintro rfl
    exact hlt

theorem dropArgument (h : Sound g n) {b : Block} {i : Nat} {arg : Value}
    (harg : (g.argsOf b)[i]? = some arg) : Sound (g.dropArgument b i arg) n where
  owned := h.owned.congr (fun _ => rfl) (opsIn_dropArgument g b i arg)
    (owner?_dropArgument g b i arg) (fun _ => rfl) (fun _ => rfl) fun _ => rfl
  acyclic := h.acyclic.of_lists (fun b' _ hmem => opsIn_dropArgument g b i arg b' ▸ hmem)
    (fun _ _ hmem => hmem) fun _ _ hmem => hmem
  uses := h.uses.dropArgument b i arg
  produced := h.produced.dropArgument harg
  symbols := h.symbols.congr (fun _ => rfl) fun _ => rfl
  lawful := by
    refine h.lawful.of_ops_eq rfl fun b' hb' => ?_
    show (g.blocks.modify b _).contains b' = true
    rw [Table.contains_modify]
    exact hb'
  bounded := h.bounded.mono fun _ => (live_dropArgument b i arg).1

/-! ## Operations in blocks -/

theorem placeOp (h : Sound g n) {b : Block} {o : Op} (i : Nat) (hb : g.blocks.contains b = true)
    (ho : g.ops.contains o = true) (hfree : g.parent? o = none)
    (hapart : ¬ g.Within (.block b) (.op o)) : Sound (g.placeOp b i o) n where
  owned := h.owned.placeOp hb ho hfree i
  acyclic := h.acyclic.placeOp hb (h.owned.not_mem_opsIn hfree b) hapart i
  uses := h.uses.congr (slot?_placeOp g b i o) fun _ => rfl
  produced := h.produced.congr (resultsOf_placeOp g b i o) (argsOf_placeOp g b i o) fun _ => rfl
  symbols := h.symbols.congr (table?_placeOp g b i o) (symbolName?_placeOp g b i o)
  lawful := by
    refine h.lawful.of_modify o (fun d => { d with parent := some b }) rfl
      (fun _ _ => ⟨rfl, rfl, rfl, rfl, rfl, rfl, rfl⟩) fun b' hb' => ?_
    exact (live_placeOp (x := .block b') b i o).2 hb'
  bounded := h.bounded.mono fun _ => (live_placeOp b i o).1

theorem takeOp (h : Sound g n) {b : Block} {o : Op} (hparent : g.parent? o = some b) :
    Sound (g.takeOp b o) n where
  owned := h.owned.takeOp hparent
  acyclic := h.acyclic.takeOp b o
  uses := h.uses.congr (slot?_takeOp g b o) fun _ => rfl
  produced := h.produced.congr (resultsOf_takeOp g b o) (argsOf_takeOp g b o) fun _ => rfl
  symbols := h.symbols.congr (table?_takeOp g b o) (symbolName?_takeOp g b o)
  lawful := by
    refine h.lawful.of_modify o (fun d => { d with parent := none }) rfl
      (fun _ _ => ⟨rfl, rfl, rfl, rfl, rfl, rfl, rfl⟩) fun b' hb' => ?_
    exact (live_takeOp (x := .block b') b o).2 hb'
  bounded := h.bounded.mono fun _ => (live_takeOp b o).1

/-! ## Blocks in regions -/

theorem placeBlock (h : Sound g n) {r : Region} {b : Block} (i : Nat)
    (hr : g.regions.contains r = true) (hb : g.blocks.contains b = true)
    (hfree : g.owner? b = none) (hapart : ¬ g.Within (.region r) (.block b)) :
    Sound (g.placeBlock r i b) n where
  owned := h.owned.placeBlock hr hb hfree i
  acyclic := h.acyclic.placeBlock hr (h.owned.not_mem_blocksIn hfree r) hapart i
  uses := h.uses.congr (fun _ => rfl) fun _ => rfl
  produced := h.produced.congr (fun _ => rfl) (argsOf_placeBlock g b i r) fun _ => rfl
  symbols := h.symbols.congr (fun _ => rfl) fun _ => rfl
  lawful := by
    refine h.lawful.of_ops_eq rfl fun b' hb' => ?_
    exact (live_placeBlock (x := .block b') r i b).2 hb'
  bounded := h.bounded.mono fun _ => (live_placeBlock r i b).1

theorem takeBlock (h : Sound g n) {r : Region} {b : Block} (howner : g.owner? b = some r) :
    Sound (g.takeBlock r b) n where
  owned := h.owned.takeBlock howner
  acyclic := h.acyclic.takeBlock r b
  uses := h.uses.congr (fun _ => rfl) fun _ => rfl
  produced := h.produced.congr (fun _ => rfl) (argsOf_takeBlock g b r) fun _ => rfl
  symbols := h.symbols.congr (fun _ => rfl) fun _ => rfl
  lawful := by
    refine h.lawful.of_ops_eq rfl fun b' hb' => ?_
    exact (live_takeBlock (x := .block b') r b).2 hb'
  bounded := h.bounded.mono fun _ => (live_takeBlock r b).1

/-! ## Operands -/

theorem fillSlot (h : Sound g n) {u : Use} {old new : Value} (hold : g.slot? u = some old)
    (hnew : g.values.contains new = true) : Sound (g.fillSlot u old new) n where
  owned := h.owned.congr (parent?_fillSlot g u old new) (fun _ => rfl) (fun _ => rfl)
    (fun _ => rfl) (fun _ => rfl) (regionsOf_fillSlot g u old new)
  acyclic := h.acyclic.of_lists (fun _ _ hmem => hmem) (fun _ _ hmem => hmem)
    fun o r hmem => regionsOf_fillSlot g u old new o ▸ hmem
  uses := h.uses.fillSlot hold hnew
  produced := h.produced.congr (resultsOf_fillSlot g u old new) (fun _ => rfl)
    (origin?_fillSlot g u old new)
  symbols := h.symbols.congr (table?_fillSlot g u old new) (symbolName?_fillSlot g u old new)
  lawful := by
    refine h.lawful.of_modify u.user (fun d => { d with operands := d.operands.set u.index new })
      rfl (fun d _ => ⟨?_, rfl, rfl, rfl, rfl, rfl, rfl⟩) fun _ hb => hb
    exact List.length_set
  bounded := h.bounded.mono fun _ => (live_fillSlot u old new).1

/-! ## Creation -/

theorem create (h : Sound g n) (hle : n ≤ n') {o : Op} {first : Nat} {types : List Ty}
    {d : OpData V} (hd : g.Admits n n' o first types d) :
    Sound ((g.putResults o first types).linkOp o d) n' where
  owned := (h.owned.putResults o first types).linkOp (h.bounded.fresh_op hd.op_ge) hd.parent
    hd.regions_nodup hd.regions
  acyclic := (h.acyclic.putResults o first types).linkOp
    (h.owned.not_mem_opsIn (parent?_eq_none (h.bounded.fresh_op hd.op_ge))) d
  uses := by
    have hresults := h.uses.putResults (fun v hv => h.bounded.fresh_value (hd.results_ge v hv)) o
    exact hresults.linkOp (h.bounded.fresh_op hd.op_ge) hd.operands
  produced := h.produced.create (h.bounded.fresh_op hd.op_ge) hd.results
    fun v hv => h.bounded.fresh_value (hd.results_ge v hv)
  symbols := by
    have hresults : (g.putResults o first types).SymbolsNamed :=
      h.symbols.congr (fun _ => rfl) fun _ => rfl
    exact hresults.linkOp (h.bounded.fresh_op hd.op_ge) hd.table
  lawful := by
    have hresults : (g.putResults o first types).Lawful := h.lawful.of_ops_eq rfl fun _ hb => hb
    exact hresults.linkOp hd.lawful hd.successors o
  bounded := by
    refine (h.bounded.advance hle).grow fun x hx => ?_
    rcases live_create.1 hx with rfl | ⟨v, hv, rfl⟩ | hold
    · exact Or.inl hd.op_lt
    · exact Or.inl (hd.results_lt v hv)
    · exact Or.inr hold

/-! ## Symbols -/

/-- Writing a table touches nothing but the table. -/
theorem setTable (h : Sound g n) {o : Op} {t t' : Table String Op} (ht : g.table? o = some t)
    (hnamed : (g.setTable o t').SymbolsNamed) : Sound (g.setTable o t') n where
  owned := h.owned.congr (parent?_setTable g o t') (fun _ => rfl) (fun _ => rfl) (fun _ => rfl)
    (fun _ => rfl) (regionsOf_setTable g o t')
  acyclic := h.acyclic.of_lists (fun _ _ hmem => hmem) (fun _ _ hmem => hmem)
    fun o' r hmem => regionsOf_setTable g o t' o' ▸ hmem
  uses := h.uses.congr (slot?_setTable g o t') fun _ => rfl
  produced := h.produced.congr (resultsOf_setTable g o t') (fun _ => rfl) fun _ => rfl
  symbols := hnamed
  lawful := by
    refine h.lawful.of_modify o (fun d => { d with symbols := some t' }) rfl
      (fun d hd => ⟨rfl, rfl, rfl, rfl, rfl, rfl, ?_⟩) fun _ hb => hb
    rw [table?_eq hd] at ht
    rw [ht]
    rfl
  bounded := h.bounded.mono fun _ => (live_modifyOp o _).1

/-! ## Erasure -/

theorem prune (h : Sound g n) {o : Op} {t : Subtree} {produced : List Value}
    (ht : g.Cuttable o t produced) : Sound (g.prune o t produced) n where
  owned := h.owned.prune ht.hangs produced
  acyclic := h.acyclic.prune o t produced
  uses := h.uses.prune ht.uses o
  produced := h.produced.prune ht.mem o
  symbols := h.symbols.prune o t produced
  lawful := h.lawful.prune ht.branches o produced
  bounded := h.bounded.mono fun _ => live_of_prune

/-! ## All changes -/

/-- The counters may advance. -/
theorem advance (h : Sound g n) (hle : n ≤ n') : Sound g n' :=
  { h with bounded := h.bounded.advance hle }

/-- A change of a sound graph leaves a sound graph. -/
theorem change (h : Sound g n) (hle : n ≤ n') (hc : Change n n' g g') : Sound g' n' := by
  have hadvanced := h.advance hle
  cases hc with
  | addBlock hge hlt => exact hadvanced.addBlock (h.bounded.fresh_block hge) hlt
  | addRegion hge hlt => exact hadvanced.addRegion (h.bounded.fresh_region hge) hlt
  | putArgument ty hb hi hge hlt =>
      exact hadvanced.putArgument ty hb hi (h.bounded.fresh_value hge) hlt
  | dropArgument harg => exact hadvanced.dropArgument harg
  | placeOp i hb ho hfree hapart => exact hadvanced.placeOp i hb ho hfree hapart
  | takeOp hparent => exact hadvanced.takeOp hparent
  | placeBlock i hr hb hfree hapart => exact hadvanced.placeBlock i hr hb hfree hapart
  | takeBlock howner => exact hadvanced.takeBlock howner
  | fillSlot hold hnew => exact hadvanced.fillSlot hold hnew
  | create hd => exact h.create hle hd
  | insertSymbol ht hs => exact hadvanced.setTable ht (h.symbols.insertSymbol ht hs)
  | removeSymbol name ht => exact hadvanced.setTable ht (h.symbols.removeSymbol ht name)
  | prune ht => exact hadvanced.prune ht

end Sound

/-- What is in a graph after a change was there before, or has a new handle. -/
theorem Change.live_cases {g g' : Graph V} {n n' : NextHandles} (hc : Change n n' g g')
    {x : Entity} (hx : g'.Live x) : g.Live x ∨ ¬ x.Below n := by
  cases hc with
  | addBlock hge _ =>
      refine (live_addBlock.1 hx).symm.imp_right ?_
      rintro rfl
      exact Nat.not_lt.2 hge
  | addRegion hge _ =>
      refine (live_addRegion.1 hx).symm.imp_right ?_
      rintro rfl
      exact Nat.not_lt.2 hge
  | putArgument _ _ _ hge _ =>
      refine (live_putArgument.1 hx).symm.imp_right ?_
      rintro rfl
      exact Nat.not_lt.2 hge
  | create hd =>
      rcases live_create.1 hx with rfl | ⟨v, hv, rfl⟩ | hold
      · exact Or.inr (Nat.not_lt.2 hd.op_ge)
      · exact Or.inr (Nat.not_lt.2 (hd.results_ge v hv))
      · exact Or.inl hold
  | dropArgument _ => exact Or.inl ((live_dropArgument _ _ _).1 hx)
  | placeOp _ _ _ _ _ => exact Or.inl ((live_placeOp _ _ _).1 hx)
  | takeOp _ => exact Or.inl ((live_takeOp _ _).1 hx)
  | placeBlock _ _ _ _ _ => exact Or.inl ((live_placeBlock _ _ _).1 hx)
  | takeBlock _ => exact Or.inl ((live_takeBlock _ _).1 hx)
  | fillSlot _ _ => exact Or.inl ((live_fillSlot _ _ _).1 hx)
  | insertSymbol _ _ => exact Or.inl ((live_modifyOp _ _).1 hx)
  | removeSymbol _ _ => exact Or.inl ((live_modifyOp _ _).1 hx)
  | prune _ => exact Or.inl (live_of_prune hx)

end Graph

/-! ## Series of changes -/

namespace Store

/-- The graph of the store is sound under its counters. -/
def Sound (s : Store V) : Prop := s.graph.Sound s.next

/-- The counters advance, and the graph may change with them. -/
inductive Step : Store V → Store V → Prop where
  | advance {g : Graph V} {n n' : NextHandles} (hle : n ≤ n') : Step ⟨g, n⟩ ⟨g, n'⟩
  | change {g g' : Graph V} {n n' : NextHandles} (hle : n ≤ n')
      (h : Graph.Change n n' g g') : Step ⟨g, n⟩ ⟨g', n'⟩

/-- One store comes from another one by a series of changes. -/
def Leads (s s' : Store V) : Prop := Relation.ReflTransGen Step s s'

theorem Sound.step {s s' : Store V} (h : s.Sound) (hstep : Step s s') : s'.Sound := by
  cases hstep with
  | advance hle => exact Graph.Sound.advance h hle
  | change hle hc => exact Graph.Sound.change h hle hc

/-- A series of changes of a sound store leaves a sound store. -/
theorem Sound.leads {s s' : Store V} (h : s.Sound) (hs : s.Leads s') : s'.Sound := by
  induction hs with
  | refl => exact h
  | tail _ hstep ih => exact ih.step hstep

end Store

end RegionIR
