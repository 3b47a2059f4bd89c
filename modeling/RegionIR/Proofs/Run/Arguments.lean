import Mathlib.Data.List.Nodup
import RegionIR.Proofs.Run.Guarantees

/-!
# Editing arguments

A block and its arguments know of each other, so an edit of the list writes to
the values as well.  What it writes there is the position and nothing else: an
argument that moves keeps its type and its uses, and so does one that is taken
out.

A removal is told which argument goes, not where it stands.  It reads the
position from the argument, and as every edit before has kept that position
right, what it takes out is that argument and no other.

An insertion draws a handle, but only after the position was checked.  So it is
refused at a position behind the end also when the counter is at its own end.

## Main results

* `Graph.Rearranged` — the entries of a graph after an edit of one argument list.
* `Reachable.argumentEdits` — when each of the edits is done, and what it leaves.
-/

namespace RegionIR

open Edit

variable {V : Type}

/-! ## What an edit of the list leaves -/

/-- A block has a new argument list, and its members state where they stand in it.  Values keep
their types and uses, values in neither list keep their entries, and nothing else has changed. -/
structure Graph.Rearranged (g : Graph V) (b : Block) (args : List Value) (g' : Graph V) :
    Prop where
  ops : g'.ops = g.ops
  regions : g'.regions = g.regions
  block : ∀ x, g'.blocks.find? x =
    (g.blocks.find? x).map fun d => if x = b then { d with args := args } else d
  position : ∀ {k v}, args[k]? = some v →
    ∃ d, g'.values.find? v = some d ∧ d.origin = .argument (some b) (some k)
  kept : ∀ {v d}, g.values.find? v = some d →
    ∃ origin, g'.values.find? v = some (d.withOrigin origin)
  other : ∀ {v}, v ∉ g.argsOf b → v ∉ args → g'.values.find? v = g.values.find? v

theorem Graph.Rearranged.argsOf_self {g g' : Graph V} {b : Block} {args : List Value}
    (h : g.Rearranged b args g') (hb : g.blocks.contains b = true) : g'.argsOf b = args := by
  obtain ⟨d, hd⟩ := Table.contains_iff.1 hb
  rw [argsOf, h.block, hd, Option.map_some, if_pos rfl, Option.map_some, Option.getD_some]

/-- A new argument that nobody uses is in the list, between those that were there. -/
structure Graph.ArgumentInserted (g : Graph V) (b : Block) (i : Nat) (ty : Ty) (arg : Value)
    (g' : Graph V) : Prop extends g.Rearranged b ((g.argsOf b).insertIdx i arg) g' where
  fresh : g.values.find? arg = none
  new : g'.values.find? arg = some { ty := ty, origin := .argument (some b) (some i), uses := [] }

/-- An argument is no longer in the list, and no longer states that it is.  The others keep
their order, and the argument keeps its type and its uses. -/
structure Graph.ArgumentRemoved (g : Graph V) (b : Block) (arg : Value) (g' : Graph V) :
    Prop extends g.Rearranged b ((g.argsOf b).erase arg) g' where
  unlisted : arg ∉ g'.argsOf b
  detached : ∃ d, g.values.find? arg = some d ∧
    g'.values.find? arg = some (d.withOrigin (.argument none none))

/-- An edit of the list of one block, seen at every block. -/
theorem Graph.find?_modify_args (g : Graph V) (b : Block) (edit : List Value → List Value)
    (x : Block) :
    (g.blocks.modify b fun d => { d with args := edit d.args }).find? x =
      (g.blocks.find? x).map fun d =>
        if x = b then { d with args := edit (g.argsOf b) } else d := by
  rw [Table.find?_modify]
  cases hx : g.blocks.find? x with
  | none => simp
  | some d =>
      by_cases heq : x = b
      · subst heq
        simp [argsOf_eq hx]
      · simp [heq]

namespace Graph.Produced

variable {g : Graph V} {b : Block} {i : Nat} {arg : Value}

theorem argumentInserted (h : g.Produced) (hi : i ≤ (g.argsOf b).length)
    (hfresh : g.values.find? arg = none) (ty : Ty) :
    g.ArgumentInserted b i ty arg (g.putArgument b i arg ty) where
  ops := rfl
  regions := rfl
  block x := g.find?_modify_args b (·.insertIdx i arg) x
  position hk := Option.map_eq_some_iff.1 (origin?_putArgument (h.nodup_insertIdx hi hfresh)
    (fun hk => h.argument.1 hk) hi ty hk)
  kept := by
    intro v d hd
    have hne : v ≠ arg := by
      rintro rfl
      cases hd.symm.trans hfresh
    exact find?_putArgument hne hd b i ty
  other _ hv := find?_putArgument_of_not_mem hi hv ty
  fresh := hfresh
  new := find?_putArgument_self (h.nodup_insertIdx hi hfresh) hi ty

theorem argumentRemoved (h : g.Produced) (harg : (g.argsOf b)[i]? = some arg) :
    g.ArgumentRemoved b arg (g.dropArgument b i arg) := by
  have hnodup := h.nodup_argsOf b
  have herase : (g.argsOf b).erase arg = (g.argsOf b).eraseIdx i := by
    obtain ⟨hlt, rfl⟩ := List.getElem?_eq_some_iff.1 harg
    exact List.Nodup.erase_getElem hnodup i hlt
  obtain ⟨d, hd⟩ := Table.contains_iff.1 (h.live_of_mem_argsOf (List.mem_of_getElem? harg))
  exact {
    ops := rfl
    regions := rfl
    block := by
      rw [herase]
      exact fun x => g.find?_modify_args b (·.eraseIdx i) x
    position := by
      intro k v hk
      rw [herase] at hk
      exact Option.map_eq_some_iff.1
        (origin?_dropArgument hnodup (fun hk => h.argument.1 hk) harg hk)
    kept := fun hd => find?_dropArgument hd b i arg
    other := fun hv _ => find?_dropArgument_of_not_mem harg hv
    unlisted := by
      rw [argsOf_dropArgument, if_pos rfl, mem_eraseIdx_iff hnodup harg]
      exact fun hmem => hmem.1 rfl
    detached := ⟨d, hd, by rw [find?_dropArgument_self hnodup harg, hd, Option.map_some]⟩ }

end Graph.Produced

/-! ## How the edits run -/

variable {s : Store V} {b : Block} {i : Nat} {arg : Value}

theorem run_insertArgument (hs : s.Sound) (hb : s.graph.blocks.contains b = true)
    (hi : i ≤ (s.graph.argsOf b).length) (hroom : s.next.Room .value 1) (ty : Ty) :
    (insertArgument b i ty).run s = .done ⟨s.next.value⟩
      ⟨s.graph.putArgument b i ⟨s.next.value⟩ ty,
        { s.next with value := s.next.value + 1 }⟩ :=
  (faultless_insertArgument hs hb (fun _ => hroom) ty).of_ends (P := (· = .done _ _))
    (ends_insertArgument (fun _ _ _ => rfl) fun hlt => absurd hi (Nat.not_le.2 hlt))

theorem run_insertArgument_of_no_room (hb : s.graph.blocks.contains b = true)
    (hi : i ≤ (s.graph.argsOf b).length) (hno : ¬ s.next.Room .value 1) (ty : Ty) :
    (insertArgument b i ty).run s = .fault (.overflow .add) := by
  obtain ⟨d, hd⟩ := Table.contains_iff.1 hb
  rw [Graph.argsOf_eq hd] at hi
  rw [insertArgument, run_ask_bind (Table.demand_eq_ok_iff.2 hd)]
  dsimp only
  rw [if_neg (Nat.not_lt.2 hi)]
  exact run_fresh_bind_of_no_room hno _

theorem run_insertArgument_of_lt (hs : s.Sound) (hb : s.graph.blocks.contains b = true)
    (hi : (s.graph.argsOf b).length < i) (ty : Ty) :
    (insertArgument b i ty).run s =
      .refused (.outOfRange .arguments i (s.graph.argsOf b).length) s :=
  (faultless_insertArgument hs hb (fun hle => absurd hle (Nat.not_le.2 hi)) ty).of_ends
    (P := (· = .refused _ _))
    (ends_insertArgument (fun _ _ hle => absurd hle (Nat.not_le.2 hi)) fun _ => rfl)

/-- To add an argument is to insert it at the end. -/
theorem run_addArgument (hs : s.Sound) (hb : s.graph.blocks.contains b = true) (ty : Ty) :
    (addArgument b ty).run s = (insertArgument b (s.graph.argsOf b).length ty).run s := by
  by_cases hroom : s.next.Room .value 1
  · rw [run_insertArgument hs hb (Nat.le_refl _) hroom]
    exact (faultless_addArgument hroom hb ty).of_ends (P := (· = .done _ _))
      (ends_addArgument fun _ _ => rfl)
  · rw [run_insertArgument_of_no_room hb (Nat.le_refl _) hroom]
    exact run_fresh_bind_of_no_room hroom _

theorem run_removeArgument (hs : s.Sound) (hat : (s.graph.argsOf b)[i]? = some arg) :
    (removeArgument b arg).run s = .done () ⟨s.graph.dropArgument b i arg, s.next⟩ := by
  have hmem := List.mem_of_getElem? hat
  obtain ⟨hlt, -⟩ := List.getElem?_eq_some_iff.1 hat
  obtain ⟨d, hd, -⟩ := Graph.mem_argsOf_iff.1 hmem
  have hnodup := hs.produced.nodup_argsOf b
  refine (faultless_removeArgument hs (Table.contains_iff.2 ⟨d, hd⟩)
    (hs.produced.live_of_mem_argsOf hmem)).of_ends (P := (· = .done _ _))
      (ends_removeArgument hs (fun j hj => ?_) fun hnot => absurd hmem hnot)
  -- The argument stands at one position only.
  rw [(List.getElem?_inj hlt hnodup).1 (hat.trans hj.symm)]

theorem run_removeArgument_of_not_mem (hs : s.Sound) (hb : s.graph.blocks.contains b = true)
    (harg : s.graph.values.contains arg = true) (hnot : arg ∉ s.graph.argsOf b) :
    (removeArgument b arg).run s = .refused (.argumentNotOwned arg b) s :=
  (faultless_removeArgument hs hb harg).of_ends (P := (· = .refused _ _))
    (ends_removeArgument hs (fun _ hat => absurd (List.mem_of_getElem? hat) hnot) fun _ => rfl)

/-- To remove the argument at a position is to remove that argument. -/
theorem run_removeArgumentAt (hs : s.Sound) (hat : (s.graph.argsOf b)[i]? = some arg) :
    (removeArgumentAt b i).run s = .done arg ⟨s.graph.dropArgument b i arg, s.next⟩ := by
  obtain ⟨d, hd, -⟩ := Graph.mem_argsOf_iff.1 (List.mem_of_getElem? hat)
  have hremove := run_removeArgument hs hat
  rw [Graph.argsOf_eq hd] at hat
  rw [removeArgumentAt, run_ask_bind (Table.demand_eq_ok_iff.2 hd)]
  dsimp only
  rw [hat]
  dsimp only
  rw [Action.run_bind_of_done _ hremove, Action.run_pure]

theorem run_removeArgumentAt_of_le (hb : s.graph.blocks.contains b = true)
    (hi : (s.graph.argsOf b).length ≤ i) :
    (removeArgumentAt b i).run s =
      .refused (.outOfRange .arguments i (s.graph.argsOf b).length) s := by
  obtain ⟨d, hd⟩ := Table.contains_iff.1 hb
  rw [Graph.argsOf_eq hd] at hi ⊢
  rw [removeArgumentAt, run_ask_bind (Table.demand_eq_ok_iff.2 hd)]
  dsimp only
  rw [List.getElem?_eq_none hi, Action.run_refuse]

/-! ## The guarantee -/

/-- How the edits of the arguments of a block end.  Each of them is done under one condition,
and refused without a trace where that fails.  A new argument needs a handle as well. -/
structure ArgumentEdits (s : Store V) (b : Block) : Prop where
  insert : ∀ {i}, i ≤ (s.graph.argsOf b).length → s.next.Room .value 1 → ∀ ty, ∃ arg s',
    (insertArgument b i ty).run s = .done arg s' ∧ s.graph.ArgumentInserted b i ty arg s'.graph
  insert_exhausted : ∀ {i}, i ≤ (s.graph.argsOf b).length → ¬ s.next.Room .value 1 → ∀ ty,
    (insertArgument b i ty).run s = .fault (.overflow .add)
  insert_refused : ∀ {i}, (s.graph.argsOf b).length < i → ∀ ty,
    (insertArgument b i ty).run s =
      .refused (.outOfRange .arguments i (s.graph.argsOf b).length) s
  add : ∀ ty, (addArgument b ty).run s =
    (insertArgument b (s.graph.argsOf b).length ty).run s
  remove : ∀ {arg}, arg ∈ s.graph.argsOf b → ∃ s',
    (removeArgument b arg).run s = .done () s' ∧ s.graph.ArgumentRemoved b arg s'.graph
  remove_refused : ∀ {arg}, s.graph.values.contains arg = true → arg ∉ s.graph.argsOf b →
    (removeArgument b arg).run s = .refused (.argumentNotOwned arg b) s
  removeAt : ∀ {i} (hi : i < (s.graph.argsOf b).length), ∃ s',
    (removeArgumentAt b i).run s = .done (s.graph.argsOf b)[i] s' ∧
      (removeArgument b (s.graph.argsOf b)[i]).run s = .done () s' ∧
      s.graph.ArgumentRemoved b (s.graph.argsOf b)[i] s'.graph
  removeAt_refused : ∀ {i}, (s.graph.argsOf b).length ≤ i →
    (removeArgumentAt b i).run s =
      .refused (.outOfRange .arguments i (s.graph.argsOf b).length) s

/-- The edits of arguments are edits of a list, and all arguments state their positions in it. -/
theorem Reachable.argumentEdits [OpVerifier V] (h : Reachable s)
    (hb : s.graph.blocks.contains b = true) : ArgumentEdits s b where
  insert hi hroom ty := by
    have hfresh := h.sound.bounded.fresh_value (v := ⟨s.next.value⟩) (Nat.le_refl _)
    exact ⟨_, _, run_insertArgument h.sound hb hi hroom ty,
      h.sound.produced.argumentInserted hi hfresh ty⟩
  insert_exhausted hi hno ty := run_insertArgument_of_no_room hb hi hno ty
  insert_refused hi ty := run_insertArgument_of_lt h.sound hb hi ty
  add ty := run_addArgument h.sound hb ty
  remove hmem := by
    obtain ⟨i, hi⟩ := List.mem_iff_getElem?.1 hmem
    exact ⟨_, run_removeArgument h.sound hi, h.sound.produced.argumentRemoved hi⟩
  remove_refused harg hnot := run_removeArgument_of_not_mem h.sound hb harg hnot
  removeAt hi := by
    have hat := List.getElem?_eq_getElem hi
    exact ⟨_, run_removeArgumentAt h.sound hat, run_removeArgument h.sound hat,
      h.sound.produced.argumentRemoved hat⟩
  removeAt_refused hi := run_removeArgumentAt_of_le hb hi

/-- The small run, and then two arguments in front of the first one, one of them taken out. -/
def Store.shifted : Store DialectVerifier :=
  Command.play [.insertArgument ⟨1⟩ 0 default, .insertArgument ⟨1⟩ 0 default,
    .removeArgument ⟨1⟩ ⟨3⟩] .sample

/-- An argument that was moved twice and is in use is taken out where it stands now, and one that
was taken out before is refused. -/
theorem Reachable.argumentEdits_shifted : Reachable Store.shifted ∧
    Store.shifted.graph.blocks.contains ⟨1⟩ = true ∧
    Store.shifted.graph.argsOf ⟨1⟩ = [⟨4⟩, ⟨1⟩] ∧
    (∃ s', (removeArgument ⟨1⟩ ⟨1⟩).run Store.shifted = .done () s' ∧
      Store.shifted.graph.ArgumentRemoved ⟨1⟩ ⟨1⟩ s'.graph ∧ s'.graph.argsOf ⟨1⟩ = [⟨4⟩]) ∧
    (removeArgument ⟨1⟩ ⟨3⟩).run Store.shifted =
      .refused (.argumentNotOwned ⟨3⟩ ⟨1⟩) Store.shifted ∧
    (insertArgument ⟨1⟩ 3 default).run Store.shifted =
      .refused (.outOfRange .arguments 3 2) Store.shifted := by
  have hreachable : Reachable Store.shifted := reachable_sample.play _
  have hb : Store.shifted.graph.blocks.contains ⟨1⟩ = true := by decide +kernel
  have hargs : Store.shifted.graph.argsOf ⟨1⟩ = [⟨4⟩, ⟨1⟩] := by decide +kernel
  have hmem : (⟨1⟩ : Value) ∈ Store.shifted.graph.argsOf ⟨1⟩ := by
    rw [hargs]
    decide
  have hedits := Reachable.argumentEdits hreachable hb
  obtain ⟨s', hrun, hremoved⟩ := hedits.remove hmem
  refine ⟨hreachable, hb, hargs, ⟨s', hrun, hremoved, ?_⟩, ?_, ?_⟩
  · rw [hremoved.argsOf_self hb, hargs]
    decide
  · exact hedits.remove_refused (by decide +kernel) (by rw [hargs]; decide)
  · have hrefused := hedits.insert_refused (i := 3) (by rw [hargs]; decide) default
    rwa [hargs] at hrefused

end RegionIR
