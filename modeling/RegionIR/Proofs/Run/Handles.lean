import Mathlib.Data.List.Nodup
import RegionIR.Dialect
import RegionIR.Session
import RegionIR.Proofs.Run.Reachable

/-!
# No handle is given out twice

All graphs of a session draw their handles from the same counters, which never
go back.  So a handle that was drawn once is behind its counter for good, and
what comes into a graph later has another one.  This needs that whatever is in
a graph has been drawn, in every graph and after every command.

A run keeps a log of all handles that its commands have drawn.  It has the
handles of requests that were refused, and those of entities that are gone.

A counter at its end gives out nothing.  The command that asks it for a handle
meets a fault, which ends the run, so no counter starts again from the beginning.

## Main results

* `Command.creates` — the new entities that a command returns.
* `Command.ends_creates` — they have new handles, and so has what they produce.
* `Graph.GoesWith`, `Edit.ends_eraseOp_goesWith` — what an erasure takes along.
* `Session.GraphRun` — runs on the graphs of a session, with the log of handles.
* `Session.GraphRun.accounted` — the invariant of such runs.
* `Session.GraphRun.neverReused`
-/

namespace RegionIR

variable {V : Type}

/-! ## Drawing handles -/

namespace NextHandles

/-- All handles that are drawn while the counters advance. -/
def drawn (n n' : NextHandles) : List Entity :=
  [EntityKind.value, .op, .block, .region].flatMap fun k =>
    (List.range' (n.of k) (n'.of k - n.of k)).map (Entity.ofNum k)

theorem mem_drawn {n n' : NextHandles} {x : Entity} :
    x ∈ n.drawn n' ↔ ¬ x.Below n ∧ x.Below n' := by
  have hkind : ∀ k, k ∈ [EntityKind.value, .op, .block, .region] := by
    intro k
    cases k <;> decide
  unfold drawn Entity.Below
  rw [List.mem_flatMap]
  constructor
  · rintro ⟨k, -, hx⟩
    obtain ⟨i, hi, rfl⟩ := List.mem_map.1 hx
    rw [List.mem_range'_1] at hi
    rw [Entity.kind_ofNum, Entity.num_ofNum]
    omega
  · rintro ⟨hge, hlt⟩
    refine ⟨x.kind, hkind _, List.mem_map.2 ⟨x.num, List.mem_range'_1.2 ?_, x.ofNum_num⟩⟩
    omega

theorem nodup_drawn (n n' : NextHandles) : (n.drawn n').Nodup := by
  unfold drawn
  rw [List.nodup_flatMap]
  constructor
  · intro k _
    refine List.Nodup.map (fun i j hij => ?_) List.nodup_range'
    simpa using congrArg Entity.num hij
  · have hkinds : [EntityKind.value, .op, .block, .region].Nodup := by decide
    refine hkinds.imp fun {k k'} hne x hx hx' => hne ?_
    obtain ⟨i, -, rfl⟩ := List.mem_map.1 hx
    obtain ⟨j, -, hij⟩ := List.mem_map.1 hx'
    simpa using (congrArg Entity.kind hij).symm

end NextHandles

/-! ## What a command creates -/

/-- The results of an operation and the arguments of a block. -/
def Graph.Yields (g : Graph V) : Entity → Value → Prop
  | .op o, v => v ∈ g.resultsOf o
  | .block b, v => v ∈ g.argsOf b
  | _, _ => False

theorem Graph.Sound.live_of_yields {g : Graph V} {n : NextHandles} (h : g.Sound n) {x : Entity}
    {v : Value} (hv : g.Yields x v) : g.Live (.value v) := by
  cases x with
  | op o => exact h.produced.live_of_mem_resultsOf hv
  | block b => exact h.produced.live_of_mem_argsOf hv
  | value _ => exact hv.elim
  | region _ => exact hv.elim

/-- An entity is new in a graph, and so is what it produces. -/
structure Created (n : NextHandles) (g : Graph V) (x : Entity) : Prop where
  live : g.Live x
  new : ¬ x.Below n
  yields : ∀ v, g.Yields x v → ¬ (Entity.value v).Below n

namespace Created

variable {n : NextHandles} {g : Graph V}

theorem value {v : Value} (hlive : g.values.contains v = true) (hnew : n.value ≤ v.num) :
    Created n g (.value v) where
  live := hlive
  new := Nat.not_lt.2 hnew
  yields _ h := h.elim

theorem region {r : Region} (hlive : g.regions.contains r = true) (hnew : n.region ≤ r.num) :
    Created n g (.region r) where
  live := hlive
  new := Nat.not_lt.2 hnew
  yields _ h := h.elim

theorem block {b : Block} (hlive : g.blocks.contains b = true) (hnew : n.block ≤ b.num)
    (hargs : ∀ v ∈ g.argsOf b, n.value ≤ v.num) : Created n g (.block b) where
  live := hlive
  new := Nat.not_lt.2 hnew
  yields v hv := Nat.not_lt.2 (hargs v hv)

theorem op {o : Op} {results : Nat} (hlive : g.ops.contains o = true) (hnew : n.op ≤ o.num)
    (hresults : g.resultsOf o = resultHandles n.value results) : Created n g (.op o) where
  live := hlive
  new := Nat.not_lt.2 hnew
  yields v hv := by
    have hmem : v ∈ g.resultsOf o := hv
    rw [hresults] at hmem
    obtain ⟨i, -, rfl⟩ := mem_resultHandles.1 hmem
    exact Nat.not_lt.2 (Nat.le_add_right n.value i)

end Created

namespace Command

open Edit

variable [OpVerifier V]

/-- The edit of a command, with the new entities that it returns.  The body of a module is one
of them only if it was made. -/
def creates : Command V → Edit V (List Entity)
  | .newBlock => do return [.block (← Edit.newBlock)]
  | .newBlockWith types => do return [.block (← Edit.newBlockWith types)]
  | .addArgument b ty => do return [.value (← Edit.addArgument b ty)]
  | .insertArgument b i ty => do return [.value (← Edit.insertArgument b i ty)]
  | .newRegion => do return [.region (← Edit.newRegion)]
  | .newRegionWith blocks => do return [.region (← Edit.newRegionWith blocks)]
  | .create request => do return [.op (← Edit.create request)]
  | .createOf definition operands attrs regions parent => do
    return [.op (← Edit.createOf definition operands attrs regions parent)]
  | .newModule => do return [.op (← Edit.newModule)]
  | .moduleBodyOrNew m => do
    let g ← graph
    let b ← Edit.moduleBodyOrNew m
    return if g.blocks.contains b then [] else [.block b]
  | c => do
    c.edit
    return []

theorem edit_eq (c : Command V) : c.edit = c.creates >>= fun _ => pure () := by
  cases c with
  | moduleBodyOrNew m =>
      simp only [edit, creates, bind_assoc, pure_bind]
      rfl
  | _ => simp only [edit, creates, bind_assoc, pure_bind, bind_pure_unit]

/-- Where a command ends, its series of changes ends. -/
theorem stepsFrom_creates {s : Store V} (hs : s.Sound) (c : Command V) :
    StepsFrom c.creates s := by
  have hsteps := c.stepsFrom hs
  rw [StepsFrom, c.edit_eq, Action.ends_bind] at hsteps
  exact hsteps

/-- A command that is refused leaves no trace of what it has drawn, unless it is an append. -/
theorem atomicFrom_creates {s : Store V} (hs : s.Sound) {c : Command V}
    (hc : ∀ m o, c ≠ .appendToModule m o) : AtomicFrom c.creates s := by
  have hatomic := atomicFrom hs hc
  rw [AtomicFrom, c.edit_eq, Action.ends_bind] at hatomic
  exact hatomic

end Command

/-! ## What an erasure takes along -/

namespace Graph

variable {g : Graph V} {o : Op} {x : Entity}

/-- What goes with an operation: the operation, all that is nested in it, and the results and
arguments of these. -/
inductive GoesWith (g : Graph V) (o : Op) : Entity → Prop where
  | op {o' : Op} (h : g.Within (.op o') (.op o)) : GoesWith g o (.op o')
  | block {b : Block} (h : g.Within (.block b) (.op o)) : GoesWith g o (.block b)
  | region {r : Region} (h : g.Within (.region r) (.op o)) : GoesWith g o (.region r)
  | result {o' : Op} {v : Value} (h : g.Within (.op o') (.op o)) (hv : v ∈ g.resultsOf o') :
      GoesWith g o (.value v)
  | argument {b : Block} {v : Value} (h : g.Within (.block b) (.op o)) (hv : v ∈ g.argsOf b) :
      GoesWith g o (.value v)

/-- What goes with an operation of the graph is in the graph, as some list names it. -/
theorem Sound.live_of_goesWith {n : NextHandles} (hs : g.Sound n)
    (ho : g.ops.contains o = true) (hx : g.GoesWith o x) : g.Live x := by
  cases hx with
  | op h =>
      rcases Relation.ReflTransGen.cases_tail h with heq | ⟨_, -, hheld⟩
      · cases heq
        exact ho
      · cases hheld with | op hmem => exact hs.owned.op_of_mem_opsIn hmem
  | block h =>
      rcases Relation.ReflTransGen.cases_tail h with heq | ⟨_, -, hheld⟩
      · cases heq
      · cases hheld with | block hmem => exact hs.owned.block_of_mem_blocksIn hmem
  | region h =>
      rcases Relation.ReflTransGen.cases_tail h with heq | ⟨_, -, hheld⟩
      · cases heq
      · cases hheld with | region hmem => exact hs.owned.region_of_mem_regionsOf hmem
  | result _ hv => exact hs.produced.live_of_mem_resultsOf hv
  | argument _ hv => exact hs.produced.live_of_mem_argsOf hv

/-- A graph that is cut has nothing left of what goes with the root. -/
theorem Collected.not_live_prune {t : Subtree} {produced : List Value}
    (h : g.Collected o t produced) (hx : g.GoesWith o x) : ¬ (g.prune o t produced).Live x := by
  have hvalue : ∀ v, v ∈ produced → ¬ (g.prune o t produced).Live (.value v) := by
    intro v hv
    simp [Live, Table.contains, find?_values_prune, hv]
  cases hx with
  | @op o' hin =>
      have hmem : o' ∈ t.ops := (h.contains _).2 hin
      simp [Live, Table.contains, find?_ops_prune, hmem]
  | @block b hin =>
      have hmem : b ∈ t.blocks := (h.contains _).2 hin
      simp [Live, Table.contains, find?_blocks_prune, hmem]
  | @region r hin =>
      have hmem : r ∈ t.regions := (h.contains _).2 hin
      simp [Live, Table.contains, find?_regions_prune, hmem]
  | result hin hv => exact hvalue _ ((h.mem _).2 (Or.inl ⟨_, (h.contains _).2 hin, hv⟩))
  | argument hin hv => exact hvalue _ ((h.mem _).2 (Or.inr ⟨_, (h.contains _).2 hin, hv⟩))

end Graph

/-- An erasure that is done has taken all that goes with the operation out of the graph. -/
theorem Edit.ends_eraseOp_goesWith {s : Store V} (hs : s.Sound) (o : Op) :
    ((eraseOp o).run s).Ends
      (fun _ s' => ∀ x, s.graph.GoesWith o x → s.graph.Live x ∧ ¬ s'.graph.Live x)
      fun _ _ => True := by
  refine ends_eraseOp hs (fun _ _ _ _ _ _ _ _ => trivial) (fun _ _ _ _ _ _ _ _ => trivial)
    fun t produced ht hproduced _ _ x hx => ?_
  have hcollected := Graph.collected_of_walk hs.owned hs.acyclic ht hproduced
  exact ⟨hs.live_of_goesWith (Graph.contains_of_subtree ht) hx, hcollected.not_live_prune hx⟩

/-! ## New handles for new entities -/

namespace Edit

open RegionIR.Action

variable {s : Store V}

/-- A new block has no arguments, and all that it gets are new. -/
theorem created_newBlockWith (hs : s.Sound) (types : List Ty) :
    ((newBlockWith types).run s).Ends (fun b s' => Created s.next s'.graph (.block b))
      fun _ _ => True := by
  have hfresh := hs.bounded.fresh_block (b := ⟨s.next.block⟩) (Nat.le_refl _)
  rw [newBlockWith, ends_bind, ends_newBlock]
  intro _
  rw [ends_bind]
  refine (ends_forEach_of_invariant (I := fun s' => s.next.value ≤ s'.next.value ∧
    Created s.next s'.graph (.block ⟨s.next.block⟩)) (fun ty _ s' hs' => ?_) ?_).mono
      (fun _ _ hs' => (ends_pure _).2 hs'.2) fun _ _ (h : True) => h
  · obtain ⟨hle, hcreated⟩ := hs'
    rw [ends_bind]
    refine ends_addArgument fun _ hb => ⟨Nat.le_succ_of_le hle, ?_⟩
    refine .block (Graph.live_putArgument.2 (Or.inr hcreated.live)) (Nat.le_refl _) fun v hv => ?_
    rw [Graph.argsOf_putArgument hb, if_pos rfl, List.mem_insertIdx (Nat.le_refl _)] at hv
    rcases hv with rfl | hold
    · exact hle
    · exact Nat.not_lt.1 (hcreated.yields v hold)
  · refine ⟨Nat.le_refl _, .block (Graph.live_addBlock.2 (Or.inl rfl)) (Nat.le_refl _) ?_⟩
    intro v hv
    rw [Graph.argsOf_addBlock hfresh, Graph.argsOf, hfresh] at hv
    cases hv

/-- The region stays while its blocks are placed. -/
theorem created_newRegionWith (hs : s.Sound) (blocks : List Block) :
    ((newRegionWith blocks).run s).Ends (fun r s' => Created s.next s'.graph (.region r))
      fun _ _ => True := by
  have hpresent : Present ⟨s.next.region⟩ [] (s.graph.addRegion ⟨s.next.region⟩) :=
    ⟨Graph.live_addRegion.2 (Or.inl rfl), fun _ hb => nomatch hb⟩
  rw [newRegionWith, ends_bind, ends_newRegion]
  intro hroom
  rw [ends_bind, ends_orUndo]
  refine (ends_forEach_of_invariant
    (fun b _ s' hs' => ends_pushBlockBack_present (V := V) hs'.1 hs'.2 b)
    ⟨hs.leads (leads_addRegion hroom), hpresent⟩).mono (fun _ s' hs' => ?_) fun _ s' _ => ?_
  · exact .region hs'.2.region (Nat.le_refl _)
  · exact ((Outcome.ends_true _).2 trivial).mono (fun _ _ _ => trivial) fun _ _ _ => trivial

/-- A module draws the handle of its region first, which is of another kind. -/
theorem created_newModule [OpVerifier V] (hs : s.Sound) :
    ((newModule : Edit V Op).run s).Ends (fun m s' => Created s.next s'.graph (.op m))
      fun _ _ => True := by
  rw [newModule, ends_bind, ends_newRegion]
  intro hroom
  rw [ends_orUndo]
  refine ends_createOf (hs.leads (leads_addRegion hroom)) (fun _ _ _ _ hlive hresults => ?_)
    fun _ _ _ => ?_
  · exact .op hlive (Nat.le_refl _) hresults
  · exact trivial

/-- A body that is there is not new. -/
theorem created_moduleBodyOrNew (hs : s.Sound) (m : Op) :
    ((moduleBodyOrNew m).run s).Ends
      (fun b s' => s.graph.blocks.contains b = true ∨ Created s.next s'.graph (.block b))
      fun _ _ => True := by
  refine ends_moduleBodyOrNew hs (fun b hbody => ?_) fun r s' _ _ _ hmade _ => ?_
  · exact Or.inl (Graph.contains_of_moduleBody? hs.owned hbody)
  · have hfresh := hs.bounded.fresh_block (b := ⟨s.next.block⟩) (Nat.le_refl _)
    refine Or.inr ?_
    rw [hmade]
    refine .block (Graph.contains_addBody s.graph r _) (Nat.le_refl _) fun v hv => ?_
    rw [Graph.addBody, Graph.argsOf_placeBlock, Graph.argsOf_addBlock hfresh, Graph.argsOf,
      hfresh] at hv
    cases hv

end Edit

namespace Command

open Edit RegionIR.Action

variable [OpVerifier V] {s : Store V}

/-- All that a command returns as new is new. -/
theorem ends_creates (hs : s.Sound) (c : Command V) :
    (c.creates.run s).Ends (fun made s' => ∀ x ∈ made, Created s.next s'.graph x)
      fun _ _ => True := by
  cases c with
  | newBlock =>
      have hfresh := hs.bounded.fresh_block (b := ⟨s.next.block⟩) (Nat.le_refl _)
      rw [creates, ends_bind, ends_newBlock]
      intro _
      rw [ends_pure, List.forall_mem_singleton]
      refine .block (Graph.live_addBlock.2 (Or.inl rfl)) (Nat.le_refl _) fun v hv => ?_
      rw [Graph.argsOf_addBlock hfresh, Graph.argsOf, hfresh] at hv
      cases hv
  | newBlockWith types =>
      rw [creates, ends_bind]
      exact (created_newBlockWith hs types).mono (fun _ _ => List.forall_mem_singleton.2)
        fun _ _ h => h
  | addArgument b ty =>
      rw [creates, ends_bind]
      refine ends_addArgument fun _ _ => List.forall_mem_singleton.2 ?_
      exact .value (Graph.live_putArgument.2 (Or.inl rfl)) (Nat.le_refl _)
  | insertArgument b i ty =>
      rw [creates, ends_bind]
      refine ends_insertArgument (fun _ _ _ => List.forall_mem_singleton.2 ?_) fun _ => trivial
      exact .value (Graph.live_putArgument.2 (Or.inl rfl)) (Nat.le_refl _)
  | newRegion =>
      rw [creates, ends_bind, ends_newRegion]
      intro _
      rw [ends_pure, List.forall_mem_singleton]
      exact .region (Graph.live_addRegion.2 (Or.inl rfl)) (Nat.le_refl _)
  | newRegionWith blocks =>
      rw [creates, ends_bind]
      exact (created_newRegionWith hs blocks).mono (fun _ _ => List.forall_mem_singleton.2)
        fun _ _ h => h
  | create request =>
      rw [creates, ends_bind]
      refine ends_create hs (fun _ _ => List.forall_mem_singleton.2 ?_) fun _ _ _ => trivial
      exact .op (Graph.contains_created _ _ _ _) (Nat.le_refl _) (Graph.resultsOf_created _ _ _ _)
  | createOf definition operands attrs regions parent =>
      rw [creates, ends_bind]
      refine ends_createOf hs (fun _ g' _ _ hlive hresults => List.forall_mem_singleton.2 ?_)
        fun _ _ _ => trivial
      exact .op hlive (Nat.le_refl _) hresults
  | newModule =>
      rw [creates, ends_bind]
      exact (created_newModule hs).mono (fun _ _ => List.forall_mem_singleton.2) fun _ _ h => h
  | moduleBodyOrNew m =>
      rw [creates, ends_bind, ends_graph, ends_bind]
      refine (created_moduleBodyOrNew hs m).mono (fun b s' hs' => ?_) fun _ _ h => h
      rw [ends_pure]
      split
      · exact fun x hx => absurd hx List.not_mem_nil
      · rename_i hnew
        exact List.forall_mem_singleton.2 (hs'.resolve_left hnew)
  | _ =>
      refine (ends_bind _ _).2 ?_
      exact ((Outcome.ends_true _).2 trivial).mono
        (fun _ _ _ x hx => absurd hx List.not_mem_nil) fun _ _ h => h

end Command

/-! ## The graphs of a session -/

namespace Session

section Graphs

variable {α : Type} (s : Session V) {i j : Nat} (t : Store V)

theorem store_withStore_self : (s.withStore i t).store i = t := by
  show (⟨if i = i then t.graph else s.graphs i, t.next⟩ : Store V) = t
  rw [if_pos rfl]

theorem graphs_withStore_self : (s.withStore i t).graphs i = t.graph :=
  congrArg Store.graph (s.store_withStore_self t)

theorem graphs_withStore_of_ne (h : j ≠ i) : (s.withStore i t).graphs j = s.graphs j := if_neg h

/-- A graph that is put in its own place changes nothing. -/
theorem graphs_withStore_of_eq (h : t.graph = s.graphs i) (j : Nat) :
    (s.withStore i t).graphs j = s.graphs j := by
  by_cases hj : j = i
  · rw [hj, graphs_withStore_self, h]
  · exact s.graphs_withStore_of_ne t hj

/-- What holds where an edit of a graph ends, with that graph put in its place. -/
theorem ends_onGraph {s : Session V} (e : Edit V α) {done : α → Session V → Prop}
    {refused : EditError → Session V → Prop} :
    ((onGraph i e).run s).Ends done refused ↔ (e.run (s.store i)).Ends
      (fun x t => done x (s.withStore i t)) fun err t => refused err (s.withStore i t) := by
  show ((e.run (s.store i)).mapState (s.withStore i)).Ends done refused ↔ _
  cases e.run (s.store i) <;> rfl

end Graphs

/-! ## Handles accounted for -/

variable {s s' : Session V} {log : List Entity} {i j : Nat} {x : Entity}

/-- What is in a graph has been drawn, and is in no other graph. -/
structure Accounted (log : List Entity) (s : Session V) : Prop where
  sound : ∀ i, (s.store i).Sound
  nodup : log.Nodup
  below : ∀ x ∈ log, x.Below s.next
  live : ∀ {i x}, (s.graphs i).Live x → x ∈ log
  apart : ∀ {i j x}, (s.graphs i).Live x → (s.graphs j).Live x → i = j

theorem Accounted.start (next : NextHandles) : Accounted [] ({ next := next } : Session V) where
  sound _ := .empty next
  nodup := List.nodup_nil
  below _ hx := nomatch hx
  live {_ x} hx := absurd hx (Graph.not_live_empty x)
  apart {_ _ x} hx := absurd hx (Graph.not_live_empty x)

/-- A handle is new: no command has drawn it before, and it is drawn in this step. -/
structure NewHandle (log : List Entity) (s s' : Session V) (x : Entity) : Prop where
  not_mem : x ∉ log
  mem_drawn : x ∈ s.next.drawn s'.next

theorem Accounted.newHandle (h : Accounted log s) (hnew : ¬ x.Below s.next)
    (hbelow : x.Below s'.next) : NewHandle log s s' x where
  not_mem hx := hnew (h.below x hx)
  mem_drawn := NextHandles.mem_drawn.2 ⟨hnew, hbelow⟩

/-! ## Runs on the graphs -/

variable [OpVerifier V]

/-- One command on a graph of the session, or work that leaves graphs and counters alone. -/
inductive GraphStep (s s' : Session V) : Prop where
  | elsewhere (hgraphs : s'.graphs = s.graphs) (hnext : s'.next = s.next)
  | done {i : Nat} {c : Command V} {made : List Entity}
      (h : (onGraph i c.creates).run s = .done made s')
  | refused {i : Nat} {c : Command V} {e : EditError}
      (h : (onGraph i c.creates).run s = .refused e s')

/-- Any number of steps. -/
def GraphSteps : Session V → Session V → Prop := Relation.ReflTransGen GraphStep

/-- The sessions that commands on empty graphs lead to, with all handles that were drawn. -/
inductive GraphRun : List Entity → Session V → Prop where
  | start (next : NextHandles) : GraphRun [] { next := next }
  | step {log : List Entity} {s s' : Session V} (h : GraphRun log s) (hstep : GraphStep s s') :
      GraphRun (log ++ s.next.drawn s'.next) s'

/-- A step is a series of changes of one graph. -/
theorem GraphStep.leads (h : GraphStep s s') (hs : ∀ i, (s.store i).Sound) :
    ∃ i, (s.store i).Leads (s'.store i) ∧ ∀ j, j ≠ i → s'.graphs j = s.graphs j := by
  have hcommand : ∀ (i : Nat) (c : Command V), ((onGraph i c.creates).run s).Ends
      (fun _ s' => (s.store i).Leads (s'.store i) ∧ ∀ j, j ≠ i → s'.graphs j = s.graphs j)
      fun _ s' => (s.store i).Leads (s'.store i) ∧ ∀ j, j ≠ i → s'.graphs j = s.graphs j := by
    intro i c
    have hput : ∀ t, (s.store i).Leads t → (s.store i).Leads ((s.withStore i t).store i) ∧
        ∀ j, j ≠ i → (s.withStore i t).graphs j = s.graphs j := by
      intro t ht
      rw [store_withStore_self]
      exact ⟨ht, fun j hj => s.graphs_withStore_of_ne t hj⟩
    rw [ends_onGraph]
    exact (c.stepsFrom_creates (hs i)).mono (fun _ => hput) fun _ => hput
  cases h with
  | elsewhere hgraphs hnext =>
      refine ⟨0, ?_, fun j _ => congrFun hgraphs j⟩
      have hsame : s'.store 0 = s.store 0 := by rw [store, store, hgraphs, hnext]
      rw [hsame]
      exact .refl _
  | @done i c made h =>
      have hends := hcommand i c
      rw [h] at hends
      exact ⟨i, hends⟩
  | @refused i c e h =>
      have hends := hcommand i c
      rw [h] at hends
      exact ⟨i, hends⟩

theorem GraphStep.next_le (h : GraphStep s s') (hs : ∀ i, (s.store i).Sound) :
    s.next ≤ s'.next := by
  obtain ⟨i, hleads, -⟩ := h.leads hs
  exact hleads.next_le

/-- Other graphs stay sound while the counters advance. -/
theorem GraphStep.sound (h : GraphStep s s') (hs : ∀ i, (s.store i).Sound) (j : Nat) :
    (s'.store j).Sound := by
  obtain ⟨i, hleads, hothers⟩ := h.leads hs
  by_cases hj : j = i
  · rw [hj]
    exact (hs i).leads hleads
  · show (s'.graphs j).Sound s'.next
    rw [hothers j hj]
    exact (hs j).advance hleads.next_le

/-- What is in some graph after a step was there before, or has a new handle. -/
theorem GraphStep.live_cases (h : GraphStep s s') (hs : ∀ i, (s.store i).Sound)
    (hx : (s'.graphs j).Live x) : (s.graphs j).Live x ∨ ¬ x.Below s.next := by
  obtain ⟨i, hleads, hothers⟩ := h.leads hs
  by_cases hj : j = i
  · rw [hj] at hx ⊢
    exact hleads.live_cases hx
  · rw [hothers j hj] at hx
    exact Or.inl hx

/-! ## What a step keeps -/

theorem Accounted.step (h : Accounted log s) (hstep : GraphStep s s') :
    Accounted (log ++ s.next.drawn s'.next) s' where
  sound := hstep.sound h.sound
  nodup := by
    refine h.nodup.append (s.next.nodup_drawn s'.next) fun x hlog hdrawn => ?_
    exact (NextHandles.mem_drawn.1 hdrawn).1 (h.below x hlog)
  below := by
    intro x hx
    rcases List.mem_append.1 hx with hlog | hdrawn
    · exact (h.below x hlog).advance (hstep.next_le h.sound)
    · exact (NextHandles.mem_drawn.1 hdrawn).2
  live := by
    intro i x hx
    rw [List.mem_append]
    rcases hstep.live_cases h.sound hx with hold | hnew
    · exact Or.inl (h.live hold)
    · have hbelow := (hstep.sound h.sound i).bounded.below hx
      exact Or.inr (NextHandles.mem_drawn.2 ⟨hnew, hbelow⟩)
  apart := by
    intro i j x hi hj
    obtain ⟨k, -, hothers⟩ := hstep.leads h.sound
    by_cases hbelow : x.Below s.next
    · have hold : ∀ i, (s'.graphs i).Live x → (s.graphs i).Live x := by
        intro i hi
        exact (hstep.live_cases h.sound hi).resolve_right fun hnew => hnew hbelow
      exact h.apart (hold i hi) (hold j hj)
    · -- A new handle can only be in the graph that the step has changed.
      have hchanged : ∀ i, (s'.graphs i).Live x → i = k := by
        intro i hi
        by_contra hne
        rw [hothers i hne] at hi
        exact hbelow (h.below x (h.live hi))
      exact (hchanged i hi).trans (hchanged j hj).symm

theorem GraphRun.accounted (h : GraphRun log s) : Accounted log s := by
  induction h with
  | start next => exact .start next
  | step _ hstep ih => exact ih.step hstep

/-- A handle that was drawn and is in no graph stays out of all graphs. -/
theorem Accounted.not_live (h : Accounted log s) (hsteps : GraphSteps s s') (hx : x ∈ log)
    (hgone : ∀ i, ¬ (s.graphs i).Live x) (i : Nat) : ¬ (s'.graphs i).Live x := by
  have hkept : (∀ i, (s'.store i).Sound) ∧ x.Below s'.next ∧ ∀ i, ¬ (s'.graphs i).Live x := by
    induction hsteps with
    | refl => exact ⟨h.sound, h.below x hx, hgone⟩
    | tail _ hstep ih =>
        obtain ⟨hsound, hbelow, hout⟩ := ih
        refine ⟨hstep.sound hsound, hbelow.advance (hstep.next_le hsound), fun i hi => ?_⟩
        rcases hstep.live_cases hsound hi with hold | hnew
        · exact hout i hold
        · exact hnew hbelow
  exact hkept.2.2 i

/-! ## The guarantee -/

/-- Handles are drawn once, belong to one graph, and do not come back. -/
structure NeverReused (log : List Entity) (s : Session V) : Prop where
  nodup : log.Nodup
  live : ∀ {i x}, (s.graphs i).Live x → x ∈ log
  apart : ∀ {i j x}, (s.graphs i).Live x → (s.graphs j).Live x → i = j
  /-- What a command returns as new has new handles, also for its results and arguments. -/
  created : ∀ {i : Nat} {c : Command V} {made s'}, (onGraph i c.creates).run s = .done made s' →
    ∀ x ∈ made, (s'.graphs i).Live x ∧ NewHandle log s s' x ∧
      ∀ v, (s'.graphs i).Yields x v → NewHandle log s s' (.value v)
  /-- So has all else that is new in a graph. -/
  appears : ∀ {s'}, GraphStep s s' → ∀ {i x}, (s'.graphs i).Live x →
    (s.graphs i).Live x ∨ NewHandle log s s' x
  /-- A request that is refused loses the handles of the operation and of its results. -/
  burnt : ∀ {i : Nat} {r : OpRequest V} {e s'}, (onGraph i (Edit.create r)).run s = .refused e s' →
    ∀ x, x = .op ⟨s.next.op⟩ ∨
      (∃ v ∈ resultHandles s.next.value r.resultTypes.length, x = .value v) →
        NewHandle log s s' x ∧ ∀ j, ¬ (s'.graphs j).Live x
  /-- So does any other command that is refused.  Only an append may keep what it has made. -/
  lost : ∀ {i : Nat} {c : Command V} {e s'}, (∀ m o, c ≠ .appendToModule m o) →
    (onGraph i c.creates).run s = .refused e s' → ∀ x ∈ s.next.drawn s'.next,
      ∀ {s''}, GraphSteps s' s'' → ∀ j, ¬ (s''.graphs j).Live x
  /-- An erasure takes all that goes with the operation out of the graphs. -/
  erased : ∀ {i : Nat} {o : Op} {made s'},
    (onGraph i (Command.eraseOp o).creates).run s = .done made s' →
      ∀ x, (s.graphs i).GoesWith o x → ∀ {s''}, GraphSteps s' s'' → ∀ j, ¬ (s''.graphs j).Live x
  /-- What is erased, dropped or lost is in no graph ever after. -/
  gone : ∀ {s'}, GraphSteps s s' → ∀ x ∈ log, (∀ i, ¬ (s.graphs i).Live x) →
    ∀ i, ¬ (s'.graphs i).Live x

theorem ends_creates (hs : (s.store i).Sound) (c : Command V) :
    ((onGraph i c.creates).run s).Ends
      (fun made s' => ∀ x ∈ made, Created s.next (s'.graphs i) x) fun _ _ => True := by
  rw [ends_onGraph]
  refine (c.ends_creates hs).mono (fun made t ht => ?_) fun _ _ h => h
  rw [graphs_withStore_self]
  exact ht

/-- A request that is refused leaves the graphs alone, and the counters have gone on. -/
theorem ends_create_refused (hs : (s.store i).Sound) (r : OpRequest V) :
    ((onGraph i (Edit.create r)).run s).Ends (fun _ _ => True) fun _ s' =>
      (∀ j, s'.graphs j = s.graphs j) ∧ s'.next = s.next.past r.resultTypes.length := by
  rw [ends_onGraph]
  exact Edit.ends_create hs (fun _ _ => trivial) fun _ _ _ => ⟨s.graphs_withStore_of_eq _ rfl, rfl⟩

/-- A command that is refused leaves all graphs as they were, unless it is an append. -/
theorem graphs_of_refused (hs : (s.store i).Sound) {c : Command V}
    (hc : ∀ m o, c ≠ .appendToModule m o) {e : EditError}
    (hrun : (onGraph i c.creates).run s = .refused e s') (j : Nat) :
    s'.graphs j = s.graphs j := by
  have hends : ((onGraph i c.creates).run s).Ends (fun _ _ => True)
      fun _ s' => s'.graphs j = s.graphs j := by
    rw [ends_onGraph]
    exact (Command.atomicFrom_creates hs hc).mono (fun _ _ _ => trivial) fun _ t ht =>
      s.graphs_withStore_of_eq t ht.graph j
  rwa [hrun] at hends

/-- What goes with an operation was in the graph of that operation, and is not there any more. -/
theorem ends_eraseOp_goesWith (hs : (s.store i).Sound) (o : Op) :
    ((onGraph i (Command.eraseOp o).creates).run s).Ends
      (fun _ s' => ∀ x, (s.graphs i).GoesWith o x →
        (s.graphs i).Live x ∧ ¬ (s'.graphs i).Live x ∧ ∀ j, j ≠ i → s'.graphs j = s.graphs j)
      fun _ _ => True := by
  rw [ends_onGraph]
  refine (Action.ends_bind _ _).2 ?_
  refine (Edit.ends_eraseOp_goesWith hs o).mono (fun _ t ht x hx => ?_) fun _ _ h => h
  obtain ⟨hlive, hout⟩ := ht x hx
  rw [graphs_withStore_self]
  exact ⟨hlive, hout, fun j hj => s.graphs_withStore_of_ne t hj⟩

/-- Creations return handles that no graph has had, and a handle that has left its graph is never
in a graph again. -/
theorem GraphRun.neverReused (h : GraphRun log s) : NeverReused log s := by
  have hs := h.accounted
  constructor
  case nodup => exact hs.nodup
  case live => exact hs.live
  case apart => exact hs.apart
  case created =>
    intro i c made s' hrun x hx
    have hsound := GraphStep.sound (.done hrun) hs.sound i
    have hends := ends_creates (hs.sound i) c
    rw [hrun] at hends
    have hcreated := hends x hx
    refine ⟨hcreated.live, hs.newHandle hcreated.new (hsound.bounded.below hcreated.live), ?_⟩
    intro v hv
    exact hs.newHandle (hcreated.yields v hv) (hsound.bounded.below (hsound.live_of_yields hv))
  case appears =>
    intro s' hstep i x hx
    refine (hstep.live_cases hs.sound hx).imp_right fun hnew => ?_
    exact hs.newHandle hnew ((hstep.sound hs.sound i).bounded.below hx)
  case burnt =>
    intro i r e s' hrun x hx
    have hends := ends_create_refused (hs.sound i) r
    rw [hrun] at hends
    obtain ⟨hgraphs, hnext⟩ := hends
    have hnew : ¬ x.Below s.next ∧ x.Below s'.next := by
      rw [hnext]
      rcases hx with rfl | ⟨v, hv, rfl⟩
      · exact ⟨Nat.lt_irrefl _, Nat.lt_succ_self _⟩
      · obtain ⟨k, hk, rfl⟩ := mem_resultHandles.1 hv
        exact ⟨Nat.not_lt.2 (Nat.le_add_right _ _), Nat.add_lt_add_left hk _⟩
    refine ⟨hs.newHandle hnew.1 hnew.2, fun j hj => ?_⟩
    rw [hgraphs j] at hj
    exact hnew.1 (hs.below x (hs.live hj))
  case lost =>
    intro i c e s' hc hrun x hx s'' hsteps
    refine (hs.step (.refused hrun)).not_live hsteps (List.mem_append_right _ hx) fun j hj => ?_
    rw [graphs_of_refused (hs.sound i) hc hrun j] at hj
    exact (NextHandles.mem_drawn.1 hx).1 (hs.below x (hs.live hj))
  case erased =>
    intro i o made s' hrun x hx s'' hsteps
    have hends := ends_eraseOp_goesWith (hs.sound i) o
    rw [hrun] at hends
    obtain ⟨hlive, hout, hothers⟩ := hends x hx
    have hlog := List.mem_append_left (s.next.drawn s'.next) (hs.live hlive)
    refine (hs.step (.done hrun)).not_live hsteps hlog fun j hj => ?_
    by_cases hji : j = i
    · exact hout (hji ▸ hj)
    · rw [hothers j hji] at hj
      exact hji (hs.apart hj hlive)
  case gone =>
    exact fun hsteps x hx hgone i => hs.not_live hsteps hx hgone i

/-! ## A small run -/

/-- The log and the session after some commands on graphs; what follows a fault is not run. -/
def playOn : List (Nat × Command V) → List Entity → Session V → List Entity × Session V
  | [], log, s => (log, s)
  | (i, c) :: rest, log, s =>
    match (onGraph i c.creates).run s with
    | .done _ s' => playOn rest (log ++ s.next.drawn s'.next) s'
    | .refused _ s' => playOn rest (log ++ s.next.drawn s'.next) s'
    | .fault _ => (log, s)

theorem GraphRun.playOn (h : GraphRun log s) (commands : List (Nat × Command V)) :
    GraphRun (Session.playOn commands log s).1 (Session.playOn commands log s).2 := by
  induction commands generalizing log s with
  | nil => exact h
  | cons command rest ih =>
      obtain ⟨i, c⟩ := command
      unfold Session.playOn
      cases hrun : (onGraph i c.creates).run s with
      | done made s' => exact ih (h.step (.done hrun))
      | refused e s' => exact ih (h.step (.refused hrun))
      | fault _ => exact h

/-- A constant is made in one graph and erased there.  In between a sum in another graph is
refused, as the constant is not in that graph. -/
def constantErased : List Entity × Session DialectVerifier :=
  playOn [
    (0, .create { name := "test.constant", resultTypes := [default] }),
    (1, .create { name := "test.add", operands := [⟨1⟩, ⟨1⟩], resultTypes := [default] }),
    (0, .eraseOp ⟨1⟩),
    (1, .newBlockWith [default])] [] {}

theorem graphRun_constantErased : GraphRun constantErased.1 constantErased.2 :=
  (GraphRun.start {}).playOn _

/-- Neither the constant nor the sum can come back. -/
theorem neverReused_constantErased : GraphRun constantErased.1 constantErased.2 ∧
    constantErased.1 =
      [.value ⟨1⟩, .op ⟨1⟩, .value ⟨2⟩, .op ⟨2⟩, .value ⟨3⟩, .block ⟨1⟩] ∧
    ¬ (constantErased.2.graphs 0).Live (.op ⟨1⟩) ∧ ¬ (constantErased.2.graphs 1).Live (.op ⟨2⟩) ∧
    ∀ i c made s', (onGraph i (Command.creates c)).run constantErased.2 = .done made s' →
      .op ⟨1⟩ ∉ made ∧ .op ⟨2⟩ ∉ made := by
  have hreused := GraphRun.neverReused graphRun_constantErased
  have hlog : constantErased.1 =
      [.value ⟨1⟩, .op ⟨1⟩, .value ⟨2⟩, .op ⟨2⟩, .value ⟨3⟩, .block ⟨1⟩] := by
    decide +kernel
  refine ⟨graphRun_constantErased, hlog, by decide +kernel, by decide +kernel, ?_⟩
  intro i c made s' hrun
  have hnew : ∀ x ∈ made, x ∉ constantErased.1 := fun x hx =>
    (hreused.created hrun x hx).2.1.not_mem
  rw [hlog] at hnew
  exact ⟨fun hmem => hnew _ hmem (by decide), fun hmem => hnew _ hmem (by decide)⟩

end Session

end RegionIR
