import RegionIR.Edit.Argument
import RegionIR.Proofs.Edit.Basic

/-!
# Edits of blocks and arguments

Each of these edits ends in a new block, a new argument or a removed one.
Whatever speaks against an argument is found before anything is written.

Two edits trust what they find: a removal takes the position that the argument
states, and all arguments behind it are expected to be in the graph.  Neither
can fail, as an argument states just the position that it has.

## Main results

* `grantedFrom_newBlockWith`, `atomicFrom_insertArgument`,
  `atomicFrom_removeArgument`, …
* `faultless_insertArgument`, `faultless_removeArgument`, … — no fault with a block that is there.
-/

namespace RegionIR.Edit

open RegionIR.Action

variable {V : Type} {s : Store V}

/-! ## New blocks and arguments -/

theorem ends_newBlock {done : Block → Store V → Prop} {refused : EditError → Store V → Prop} :
    ((newBlock : Edit V Block).run s).Ends done refused ↔ (s.next.Room .block 1 →
      done ⟨s.next.block⟩
        ⟨s.graph.addBlock ⟨s.next.block⟩, { s.next with block := s.next.block + 1 }⟩) := by
  rw [newBlock, ends_bind, ends_freshBlock]
  simp only [ends_bind, ends_putBlock, ends_pure]
  rfl

theorem run_newBlock_of_no_room (h : ¬ s.next.Room .block 1) :
    (newBlock : Edit V Block).run s = .fault (.overflow .add) := run_fresh_bind_of_no_room h _

theorem leads_addBlock (h : s.next.Room .block 1) : s.Leads
    ⟨s.graph.addBlock ⟨s.next.block⟩, { s.next with block := s.next.block + 1 }⟩ :=
  Store.Leads.grow (.refl s) (NextHandles.le_set h)
    (.addBlock (Nat.le_refl _) (Nat.lt_succ_self _))

theorem grantedFrom_newBlock (s : Store V) : GrantedFrom newBlock s := by
  rw [GrantedFrom, ends_newBlock]
  exact leads_addBlock

/-- A new argument may be put at any position up to the end. -/
theorem leads_putArgument {b : Block} {i : Nat} (hroom : s.next.Room .value 1)
    (hb : s.graph.blocks.contains b = true) (hi : i ≤ (s.graph.argsOf b).length) (ty : Ty) :
    s.Leads ⟨s.graph.putArgument b i ⟨s.next.value⟩ ty,
      { s.next with value := s.next.value + 1 }⟩ :=
  Store.Leads.grow (.refl s) (NextHandles.le_set hroom)
    (.putArgument ty hb hi (Nat.le_refl _) (Nat.lt_succ_self _))

/-- A further argument is put at the end. -/
theorem ends_addArgument {b : Block} {ty : Ty} {done : Value → Store V → Prop}
    {refused : EditError → Store V → Prop}
    (h : s.next.Room .value 1 → s.graph.blocks.contains b = true → done ⟨s.next.value⟩
      ⟨s.graph.putArgument b (s.graph.argsOf b).length ⟨s.next.value⟩ ty,
        { s.next with value := s.next.value + 1 }⟩) :
    ((addArgument b ty).run s).Ends done refused := by
  rw [addArgument]
  simp only [ends_bind, ends_freshValue, ends_ask, ends_putValue, ends_updateBlock, ends_pure]
  intro hroom d hd hb
  have hfind := Table.demand_eq_ok_iff.1 hd
  rw [Graph.argsOf_eq hfind, Graph.putArgument_length hfind] at h
  exact h hroom hb

theorem grantedFrom_addArgument (s : Store V) (b : Block) (ty : Ty) :
    GrantedFrom (addArgument b ty) s :=
  ends_addArgument fun hroom hb => leads_putArgument hroom hb (Nat.le_refl _) ty

theorem grantedFrom_newBlockWith (hs : s.Sound) (types : List Ty) :
    GrantedFrom (newBlockWith types) s := by
  refine (grantedFrom_newBlock s).bind fun b s' hs' => ?_
  refine GrantedFrom.bind (.forEach (hs.leads hs') fun ty _ s'' _ => ?_) fun _ s'' _ =>
    .pure b s''
  exact (grantedFrom_addArgument s'' b ty).bind fun _ s₃ _ => .pure () s₃

/-- Renumbering writes the positions from `start` on. -/
theorem ends_renumberArguments {b : Block} {start : Nat} {args : List Value}
    {done : Unit → Store V → Prop} {refused : EditError → Store V → Prop}
    (hargs : s.graph.argsOf b = args) (h : done () ⟨s.graph.renumber b start args, s.next⟩) :
    ((renumberArguments b start).run s).Ends done refused := by
  rw [renumberArguments]
  simp only [ends_bind, ends_ask, ends_ite, ends_ofExcept_error, implies_true, true_and]
  intro d hd _
  rw [← hargs, Graph.argsOf_eq (Table.demand_eq_ok_iff.1 hd)] at h
  exact ends_forEach_updateValue h

/-- An argument is put at a position up to the end. -/
theorem ends_insertArgument {b : Block} {i : Nat} {ty : Ty} {done : Value → Store V → Prop}
    {refused : EditError → Store V → Prop}
    (hdone : s.next.Room .value 1 → s.graph.blocks.contains b = true →
      i ≤ (s.graph.argsOf b).length → done ⟨s.next.value⟩
        ⟨s.graph.putArgument b i ⟨s.next.value⟩ ty, { s.next with value := s.next.value + 1 }⟩)
    (hrefused : (s.graph.argsOf b).length < i →
      refused (.outOfRange .arguments i (s.graph.argsOf b).length) s) :
    ((insertArgument b i ty).run s).Ends done refused := by
  rw [insertArgument]
  simp only [ends_bind, ends_ask, ends_ite, ends_refuse, ends_freshValue, ends_putValue,
    ends_updateBlock, ends_pure]
  intro d hd
  have hfind := Table.demand_eq_ok_iff.1 hd
  have hargs := Graph.argsOf_eq hfind
  rw [← hargs]
  refine ⟨hrefused, fun hi hroom hb => ?_⟩
  refine ends_renumberArguments (Graph.argsOf_modifyBlock_self hfind _) ?_
  dsimp only
  rw [← hargs]
  exact hdone hroom hb (Nat.not_lt.1 hi)

theorem atomicFrom_insertArgument (s : Store V) (b : Block) (i : Nat) (ty : Ty) :
    AtomicFrom (insertArgument b i ty) s :=
  ends_insertArgument (fun hroom hb hi => leads_putArgument hroom hb hi ty) fun _ => .refl s

/-! ## Removed arguments -/

theorem statedPosition?_eq_some_iff {b : Block} {i : Nat} {x : Origin} :
    statedPosition? b x = some i ↔ x = .argument (some b) (some i) := by
  unfold statedPosition?
  split
  · rename_i b' j
    by_cases hb : b' = b <;> simp [hb]
  · rename_i hother
    simp only [reduceCtorEq, false_iff]
    rintro rfl
    exact hother b i rfl

/-- An argument states a position in a block just if it is in the list there. -/
theorem statedPosition?_iff (hs : s.Sound) {b : Block} {arg : Value} {e : ValueData} {i : Nat}
    (he : s.graph.values.find? arg = some e) :
    statedPosition? b e.origin = some i ↔ (s.graph.argsOf b)[i]? = some arg := by
  rw [statedPosition?_eq_some_iff, hs.produced.argument, Graph.origin?_eq he, Option.some.injEq]

/-- An argument of the block is taken out where it stands. -/
theorem ends_removeArgument (hs : s.Sound) {b : Block} {arg : Value}
    {done : Unit → Store V → Prop} {refused : EditError → Store V → Prop}
    (hdone : ∀ i, (s.graph.argsOf b)[i]? = some arg →
      done () ⟨s.graph.dropArgument b i arg, s.next⟩)
    (hrefused : arg ∉ s.graph.argsOf b → refused (.argumentNotOwned arg b) s) :
    ((removeArgument b arg).run s).Ends done refused := by
  rw [removeArgument]
  simp only [ends_bind, ends_ask]
  intro e he
  have hposition {i : Nat} := statedPosition?_iff hs (b := b) (i := i)
    (Table.demand_eq_ok_iff.1 he)
  cases hstated : statedPosition? b e.origin with
  | none =>
      refine hrefused fun hmem => ?_
      obtain ⟨i, hi⟩ := List.mem_iff_getElem?.1 hmem
      cases hstated.symm.trans (hposition.2 hi)
  | some i =>
      simp only [ends_bind, ends_ask, ends_ite, ends_ofExcept_error, ends_updateBlock,
        ends_updateValue, implies_true, true_and]
      intro d hd _ _ _
      have hfind := Table.demand_eq_ok_iff.1 hd
      refine ends_renumberArguments (Graph.argsOf_modifyBlock_self hfind _) ?_
      dsimp only
      rw [← Graph.argsOf_eq hfind]
      exact hdone i (hposition.1 hstated)

theorem atomicFrom_removeArgument (hs : s.Sound) (b : Block) (arg : Value) :
    AtomicFrom (removeArgument b arg) s :=
  ends_removeArgument hs (fun _ hat => Store.Leads.change (.refl s) (.dropArgument hat))
    fun _ => .refl s

theorem atomicFrom_removeArgumentAt (hs : s.Sound) (b : Block) (i : Nat) :
    AtomicFrom (removeArgumentAt b i) s := by
  refine AtomicFrom.ask fun d _ => ?_
  dsimp only
  cases d.args[i]? with
  | none => exact .refuse _ s
  | some arg => exact (atomicFrom_removeArgument hs b arg).bind fun _ s' _ => .pure arg s'

/-! ## Edits that meet no fault -/

theorem faultless_newBlock : ((newBlock : Edit V Block).run s).Faultless ↔
    s.next.Room .block 1 := by
  rw [newBlock, faultless_bind, faultless_freshBlock, ends_freshBlock]
  exact and_iff_left fun _ => trivial

/-- An argument can be added to a block if there is a handle for it. -/
theorem faultless_addArgument {b : Block} (hroom : s.next.Room .value 1)
    (hb : s.graph.blocks.contains b = true) (ty : Ty) :
    ((addArgument b ty : Edit V Value).run s).Faultless := by
  obtain ⟨d, hd⟩ := Table.contains_iff.1 hb
  rw [addArgument, faultless_bind, faultless_freshValue, ends_freshValue]
  refine ⟨hroom, fun _ => ?_⟩
  rw [faultless_ask_bind (Table.demand_eq_ok_iff.2 hd)]
  simp only [faultless_bind, faultless_putValue, ends_putValue, faultless_updateBlock,
    ends_updateBlock, faultless_pure, true_and, implies_true, and_true]
  exact hb

/-- Arguments can be added to a block if there are handles for all of them. -/
theorem faultless_forEach_addArgument {b : Block} {types : List Ty}
    (hroom : s.next.Room .value types.length) (hb : s.graph.blocks.contains b = true) :
    ((forEach types fun ty => do let _ ← addArgument b ty : Edit V Unit).run s).Faultless := by
  induction types generalizing s with
  | nil => trivial
  | cons ty rest ih =>
      obtain ⟨hfirst, hrest⟩ := NextHandles.room_succ_iff.1 hroom
      rw [forEach_cons, faultless_bind, faultless_bind_pure, ends_bind]
      refine ⟨faultless_addArgument hfirst hb ty, ends_addArgument fun _ _ => ih hrest ?_⟩
      exact (Table.contains_modify _ _ _ _).trans hb

theorem faultless_newBlockWith {types : List Ty} (hblock : s.next.Room .block 1)
    (hvalues : s.next.Room .value types.length) :
    ((newBlockWith types : Edit V Block).run s).Faultless := by
  have hnew : (s.graph.addBlock ⟨s.next.block⟩).blocks.contains ⟨s.next.block⟩ = true := by
    rw [Graph.addBlock, Table.contains, Table.find?_insert, if_pos rfl, Option.isSome_some]
  rw [newBlockWith, faultless_bind, faultless_newBlock, ends_newBlock]
  refine ⟨hblock, fun _ => ?_⟩
  rw [faultless_bind_pure]
  exact faultless_forEach_addArgument hvalues hnew

/-- Arguments can be renumbered from any position up to the end. -/
theorem faultless_renumberArguments {b : Block} {start : Nat} {d : BlockData}
    (hd : s.graph.blocks.find? b = some d) (hstart : start ≤ d.args.length)
    (hlive : ∀ v ∈ d.args, s.graph.values.contains v = true) :
    ((renumberArguments b start : Edit V Unit).run s).Faultless := by
  rw [renumberArguments, faultless_ask_bind (Table.demand_eq_ok_iff.2 hd)]
  dsimp only
  rw [if_neg (Nat.not_lt.2 hstart)]
  refine faultless_forEach_updateValue fun x hx => ?_
  exact hlive x.1 (List.fst_mem_of_mem_zipIdx (List.mem_of_mem_drop hx))

theorem faultless_insertArgument (hs : s.Sound) {b : Block}
    (hb : s.graph.blocks.contains b = true) {i : Nat}
    (hroom : i ≤ (s.graph.argsOf b).length → s.next.Room .value 1) (ty : Ty) :
    ((insertArgument b i ty : Edit V Value).run s).Faultless := by
  obtain ⟨d, hd⟩ := Table.contains_iff.1 hb
  rw [insertArgument, faultless_ask_bind (Table.demand_eq_ok_iff.2 hd)]
  dsimp only
  split
  · trivial
  · rename_i hi
    rw [Graph.argsOf_eq hd] at hroom
    rw [faultless_bind, faultless_freshValue, ends_freshValue]
    refine ⟨hroom (Nat.not_lt.1 hi), fun _ => ?_⟩
    rw [faultless_bind, ends_putValue, faultless_bind, faultless_updateBlock, ends_updateBlock,
      faultless_bind_pure]
    refine ⟨trivial, hb, fun _ => ?_⟩
    refine faultless_renumberArguments (Graph.find?_modifyBlock_self hd _) ?_ fun v hv => ?_
    · rw [List.length_insertIdx_of_le_length (Nat.not_lt.1 hi)]
      omega
    · rw [List.mem_insertIdx (Nat.not_lt.1 hi), ← Graph.argsOf_eq hd] at hv
      exact Table.contains_insert.2 (hv.imp_right hs.produced.live_of_mem_argsOf)

/-- The position that an argument states lies in the list, so it can be taken out there. -/
theorem faultless_removeArgument (hs : s.Sound) {b : Block} {arg : Value}
    (hb : s.graph.blocks.contains b = true) (harg : s.graph.values.contains arg = true) :
    ((removeArgument b arg : Edit V Unit).run s).Faultless := by
  obtain ⟨d, hd⟩ := Table.contains_iff.1 hb
  obtain ⟨e, he⟩ := Table.contains_iff.1 harg
  rw [removeArgument, faultless_ask_bind (Table.demand_eq_ok_iff.2 he)]
  dsimp only
  cases hstated : statedPosition? b e.origin with
  | none => trivial
  | some i =>
      have hat := (statedPosition?_iff hs he).1 hstated
      rw [Graph.argsOf_eq hd] at hat
      obtain ⟨hi, -⟩ := List.getElem?_eq_some_iff.1 hat
      dsimp only
      rw [faultless_ask_bind (Table.demand_eq_ok_iff.2 hd), if_neg (Nat.not_le.2 hi),
        faultless_bind, faultless_updateBlock, ends_updateBlock, faultless_bind,
        faultless_updateValue, ends_updateValue]
      refine ⟨hb, fun _ => ⟨harg, fun _ => ?_⟩⟩
      refine faultless_renumberArguments (Graph.find?_modifyBlock_self hd _) ?_ fun v hv => ?_
      · rw [List.length_eraseIdx_of_lt hi]
        omega
      · rw [Graph.values_modifyValue, Table.contains_modify]
        have hmem := List.mem_of_mem_eraseIdx hv
        rw [← Graph.argsOf_eq hd] at hmem
        exact hs.produced.live_of_mem_argsOf hmem

theorem faultless_removeArgumentAt (hs : s.Sound) {b : Block}
    (hb : s.graph.blocks.contains b = true) (i : Nat) :
    ((removeArgumentAt b i : Edit V Value).run s).Faultless := by
  obtain ⟨d, hd⟩ := Table.contains_iff.1 hb
  rw [removeArgumentAt, faultless_ask_bind (Table.demand_eq_ok_iff.2 hd)]
  dsimp only
  cases hi : d.args[i]? with
  | none => trivial
  | some arg =>
      have hmem := List.mem_of_getElem? hi
      rw [← Graph.argsOf_eq hd] at hmem
      dsimp only
      rw [faultless_bind_pure]
      exact faultless_removeArgument hs hb (hs.produced.live_of_mem_argsOf hmem)

end RegionIR.Edit
