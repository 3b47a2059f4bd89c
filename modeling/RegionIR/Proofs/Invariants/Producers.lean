import RegionIR.Proofs.Graph.Arguments
import RegionIR.Proofs.Graph.Creation
import RegionIR.Proofs.Graph.Erasure

/-!
# Values know their producers

A value says which result of which operation it is, or which argument of
which block, and the producer lists it at just that position.  Since an
origin names one position, no list repeats a value and no value is in two
lists; these facts need no parts of their own in the invariant.

Insertions and removals of arguments are one change here: the argument list
of one block is replaced, its members state their positions in the new list,
and whoever is no longer a member states none.

## Main results

* `Graph.Produced` — the invariant.
* `Produced.rewriteArguments` — a new argument list for one block.
* `Produced.putArgument`, `Produced.dropArgument`, `Produced.create`,
  `Produced.prune` — the changes that touch a producer.
-/

namespace RegionIR.Graph

variable {V : Type}

/-- The value that a producer lists where an origin points to. -/
def listedAt? (g : Graph V) : Origin → Option Value
  | .result o i => (g.resultsOf o)[i]?
  | .argument (some b) (some i) => (g.argsOf b)[i]?
  | .argument _ _ => none

/-- Producers list exactly the values that name them, at the stated position.  An argument that
was taken out of its block points nowhere, and no other origin states only half of a position. -/
structure Produced (g : Graph V) : Prop where
  listed : ∀ {x v}, x ≠ .argument none none → (g.listedAt? x = some v ↔ g.origin? v = some x)

theorem listedAt?_congr {g g' : Graph V} {x : Origin}
    (hresults : ∀ {o i}, x = .result o i → g'.resultsOf o = g.resultsOf o)
    (hargs : ∀ {b i}, x = .argument (some b) i → g'.argsOf b = g.argsOf b) :
    g'.listedAt? x = g.listedAt? x := by
  unfold listedAt?
  split
  · rw [hresults rfl]
  · rw [hargs rfl]
  · rfl

namespace Produced

variable {g g' : Graph V}

theorem result (h : Produced g) {o : Op} {i : Nat} {v : Value} :
    (g.resultsOf o)[i]? = some v ↔ g.origin? v = some (.result o i) := by
  have hplaced : Origin.result o i ≠ .argument none none := fun heq => by cases heq
  exact h.listed hplaced

theorem argument (h : Produced g) {b : Block} {i : Nat} {v : Value} :
    (g.argsOf b)[i]? = some v ↔ g.origin? v = some (.argument (some b) (some i)) := by
  have hplaced : Origin.argument (some b) (some i) ≠ .argument none none :=
    fun heq => by cases heq
  exact h.listed hplaced

theorem empty : Produced (Graph.empty : Graph V) where
  listed := by
    intro x v _
    refine iff_of_false (fun hlisted => ?_) fun horigin => by cases horigin
    cases x with
    | result o i => cases hlisted
    | argument b? i? => cases b? <;> cases i? <;> cases hlisted

/-- A change that keeps results, arguments and origins keeps their agreement. -/
theorem congr (h : Produced g) (hresults : ∀ o, g'.resultsOf o = g.resultsOf o)
    (hargs : ∀ b, g'.argsOf b = g.argsOf b) (horigin : ∀ v, g'.origin? v = g.origin? v) :
    Produced g' where
  listed := by
    intro x v hx
    rw [listedAt?_congr (fun _ => hresults _) fun _ => hargs _, horigin]
    exact h.listed hx

/-! ## Argument lists -/

theorem nodup_argsOf (h : Produced g) (b : Block) : (g.argsOf b).Nodup := by
  rw [List.nodup_iff_pairwise_ne, List.pairwise_iff_getElem]
  intro i j hi hj hij heq
  have hat : g.origin? (g.argsOf b)[i] = _ := h.argument.1 (List.getElem?_eq_getElem hi)
  rw [heq, h.argument.1 (List.getElem?_eq_getElem hj)] at hat
  injection hat with hat
  injection hat with _ hat
  injection hat with hat
  omega

theorem live_of_mem_argsOf (h : Produced g) {b : Block} {v : Value} (hv : v ∈ g.argsOf b) :
    g.values.contains v = true := by
  obtain ⟨i, hi⟩ := List.mem_iff_getElem?.1 hv
  exact contains_values_iff_origin?.2 ⟨_, h.argument.1 hi⟩

theorem live_of_mem_resultsOf (h : Produced g) {o : Op} {v : Value} (hv : v ∈ g.resultsOf o) :
    g.values.contains v = true := by
  obtain ⟨i, hi⟩ := List.mem_iff_getElem?.1 hv
  exact contains_values_iff_origin?.2 ⟨_, h.result.1 hi⟩

/-- A missing value is an argument of no block. -/
theorem not_mem_argsOf (h : Produced g) {v : Value} (hv : g.values.find? v = none) (b : Block) :
    v ∉ g.argsOf b := by
  intro hmem
  have hlive := h.live_of_mem_argsOf hmem
  rw [Table.contains, hv] at hlive
  cases hlive

theorem origin?_of_mem_argsOf (h : Produced g) {b : Block} {v : Value} (hv : v ∈ g.argsOf b) :
    ∃ i, g.origin? v = some (.argument (some b) (some i)) := by
  obtain ⟨i, hi⟩ := List.mem_iff_getElem?.1 hv
  exact ⟨i, h.argument.1 hi⟩

/-- The argument list of one block may be replaced, by members of the old list and new values. -/
theorem rewriteArguments (h : Produced g) (b : Block) (args : List Value)
    (hresults : ∀ o, g'.resultsOf o = g.resultsOf o)
    (hargs : ∀ b', g'.argsOf b' = if b' = b then args else g.argsOf b')
    (hin : ∀ {k v}, args[k]? = some v → g'.origin? v = some (.argument (some b) (some k)))
    (hout : ∀ v, v ∉ args →
      g'.origin? v = if v ∈ g.argsOf b then some (.argument none none) else g.origin? v)
    (hown : ∀ v ∈ args, v ∈ g.argsOf b ∨ g.origin? v = none) : Produced g' where
  listed := by
    intro x v hx
    by_cases hmine : ∃ i, x = .argument (some b) (some i)
    · obtain ⟨i, rfl⟩ := hmine
      show (g'.argsOf b)[i]? = some v ↔ _
      rw [hargs, if_pos rfl]
      refine ⟨hin, fun hv => ?_⟩
      by_cases hmem : v ∈ args
      · obtain ⟨k, hk⟩ := List.mem_iff_getElem?.1 hmem
        rw [hin hk] at hv
        cases hv
        exact hk
      · rw [hout v hmem] at hv
        split at hv
        · cases hv
        · rename_i hold
          exact absurd (List.mem_of_getElem? (h.argument.2 hv)) hold
    · -- Elsewhere the lists are as before, and no value of either list is listed there.
      have hlist : g'.listedAt? x = g.listedAt? x := by
        unfold listedAt?
        split
        · rw [hresults]
        · rename_i b' i
          have hne : b' ≠ b := fun heq => hmine ⟨i, by rw [heq]⟩
          rw [hargs, if_neg hne]
        · rfl
      have hold : v ∈ g.argsOf b → g.origin? v ≠ some x := by
        intro hmem heq
        obtain ⟨k, hk⟩ := h.origin?_of_mem_argsOf hmem
        exact hmine ⟨k, Option.some.inj (heq.symm.trans hk)⟩
      rw [hlist, h.listed hx]
      by_cases hmem : v ∈ args
      · obtain ⟨k, hk⟩ := List.mem_iff_getElem?.1 hmem
        refine iff_of_false (fun heq => ?_) fun heq => ?_
        · rcases hown v hmem with hmem | hnone
          · exact hold hmem heq
          · rw [hnone] at heq
            cases heq
        · exact hmine ⟨k, Option.some.inj (heq.symm.trans (hin hk))⟩
      · rw [hout v hmem]
        split
        · rename_i hv
          refine iff_of_false (hold hv) fun heq => hx ?_
          exact (Option.some.inj heq).symm
        · rfl

/-- With a new value among them, the arguments of a block are still different. -/
theorem nodup_insertIdx (h : Produced g) {b : Block} {i : Nat} {arg : Value}
    (hi : i ≤ (g.argsOf b).length) (hfresh : g.values.find? arg = none) :
    ((g.argsOf b).insertIdx i arg).Nodup := by
  have hperm := List.perm_insertIdx arg (g.argsOf b) hi
  exact hperm.nodup_iff.2 (List.nodup_cons.2 ⟨h.not_mem_argsOf hfresh b, h.nodup_argsOf b⟩)

theorem putArgument (h : Produced g) {b : Block} {i : Nat} {arg : Value}
    (hb : g.blocks.contains b = true) (hi : i ≤ (g.argsOf b).length)
    (hfresh : g.values.find? arg = none) (ty : Ty) : Produced (g.putArgument b i arg ty) := by
  have hnodup := h.nodup_insertIdx hi hfresh
  refine h.rewriteArguments b ((g.argsOf b).insertIdx i arg) (fun _ => rfl)
    (argsOf_putArgument hb i arg ty) (fun hk => ?_) (fun v hv => ?_) fun v hv => ?_
  · exact origin?_putArgument hnodup (fun hk => h.argument.1 hk) hi ty hk
  · have hold : v ∉ g.argsOf b := fun hin => hv ((List.mem_insertIdx hi).2 (Or.inr hin))
    rw [if_neg hold]
    exact origin?_putArgument_of_not_mem hi ty hv
  · rcases (List.mem_insertIdx hi).1 hv with rfl | hv
    · exact Or.inr (origin?_eq_none hfresh)
    · exact Or.inl hv

theorem dropArgument (h : Produced g) {b : Block} {i : Nat} {arg : Value}
    (harg : (g.argsOf b)[i]? = some arg) : Produced (g.dropArgument b i arg) := by
  have hnodup := h.nodup_argsOf b
  refine h.rewriteArguments b ((g.argsOf b).eraseIdx i) (fun _ => rfl)
    (argsOf_dropArgument g b i arg) (fun hk => ?_) (fun v hv => ?_)
    fun v hv => Or.inl (List.mem_of_mem_eraseIdx hv)
  · exact origin?_dropArgument hnodup (fun hk => h.argument.1 hk) harg hk
  · have hlive := h.live_of_mem_argsOf (List.mem_of_getElem? harg)
    rw [origin?_dropArgument_of_not_mem hlive hv]
    by_cases heq : v = arg
    · rw [if_pos heq, if_pos (heq ▸ List.mem_of_getElem? harg)]
    · have hold : v ∉ g.argsOf b := fun hin => hv ((mem_eraseIdx_iff hnodup harg).2 ⟨heq, hin⟩)
      rw [if_neg heq, if_neg hold]

/-! ## Creation -/

/-- A new operation appears with results that are new as well. -/
theorem create (h : Produced g) {o : Op} {first : Nat} {types : List Ty} {d : OpData V}
    (ho : g.ops.find? o = none) (hresults : d.results = resultHandles first types.length)
    (hfresh : ∀ v ∈ resultHandles first types.length, g.values.find? v = none) :
    Produced ((g.putResults o first types).linkOp o d) where
  listed := by
    intro x v hx
    have hlist : ∀ o', ((g.putResults o first types).linkOp o d).resultsOf o' =
        if o' = o then resultHandles first types.length else g.resultsOf o' := by
      intro o'
      rw [resultsOf_linkOp, hresults]
      rfl
    have horigin : v ∉ resultHandles first types.length →
        ((g.putResults o first types).linkOp o d).origin? v = g.origin? v := by
      intro hv
      rw [origin?_linkOp, origin?, find?_putResults_of_ne hv, origin?]
    have hnew : v ∈ resultHandles first types.length →
        ∃ j, (resultHandles first types.length)[j]? = some v ∧
          ((g.putResults o first types).linkOp o d).origin? v = some (.result o j) := by
      intro hv
      obtain ⟨j, ty, hj, -, hfind⟩ := find?_putResults_of_mem hv g o
      exact ⟨j, hj, by rw [origin?_linkOp, origin?_eq hfind]⟩
    by_cases hmine : ∃ i, x = .result o i
    · obtain ⟨i, rfl⟩ := hmine
      show (((g.putResults o first types).linkOp o d).resultsOf o)[i]? = some v ↔ _
      rw [hlist, if_pos rfl]
      by_cases hv : v ∈ resultHandles first types.length
      · obtain ⟨j, hj, hstated⟩ := hnew hv
        rw [hstated]
        constructor
        · intro hi
          rw [resultHandles_inj hi hj]
        · intro heq
          cases heq
          exact hj
      · rw [horigin hv]
        refine iff_of_false (fun hi => hv (List.mem_of_getElem? hi)) fun hi => ?_
        have hlisted := h.result.2 hi
        rw [resultsOf, ho] at hlisted
        cases hlisted
    · have hlisted : ((g.putResults o first types).linkOp o d).listedAt? x = g.listedAt? x := by
        refine listedAt?_congr (fun {o' i} heq => ?_) fun _ => rfl
        have hne : o' ≠ o := fun ho' => hmine ⟨i, by rw [heq, ho']⟩
        rw [hlist, if_neg hne]
      rw [hlisted, h.listed hx]
      by_cases hv : v ∈ resultHandles first types.length
      · obtain ⟨j, -, hstated⟩ := hnew hv
        rw [hstated, origin?_eq_none (hfresh v hv)]
        refine iff_of_false (fun heq => by cases heq) fun heq => hmine ⟨j, ?_⟩
        exact (Option.some.inj heq).symm
      · rw [horigin hv]

/-! ## Erasure -/

/-- An origin points to a producer in a subtree. -/
def pointsInto (t : Subtree) : Origin → Bool
  | .result o _ => decide (o ∈ t.ops)
  | .argument (some b) _ => decide (b ∈ t.blocks)
  | .argument none _ => false

theorem listedAt?_prune (g : Graph V) (o : Op) (t : Subtree) (produced : List Value)
    (x : Origin) : (g.prune o t produced).listedAt? x =
      if pointsInto t x = true then none else g.listedAt? x := by
  cases x with
  | result o' i =>
      simp only [listedAt?, pointsInto, resultsOf_prune, decide_eq_true_eq]
      split
      · rfl
      · rfl
  | argument b? i? =>
      cases b? with
      | none => rfl
      | some b =>
          cases i? with
          | none => simp [listedAt?]
          | some i =>
              simp only [listedAt?, pointsInto, argsOf_prune, decide_eq_true_eq]
              split
              · rfl
              · rfl

/-- A value goes with a subtree just if its origin points into it. -/
theorem mem_produced_iff (h : Produced g) {t : Subtree} {produced : List Value}
    (hproduced : ∀ v, v ∈ produced ↔
      (∃ o ∈ t.ops, v ∈ g.resultsOf o) ∨ ∃ b ∈ t.blocks, v ∈ g.argsOf b)
    {x : Origin} {v : Value} (hx : x ≠ .argument none none) (hv : g.origin? v = some x) :
    v ∈ produced ↔ pointsInto t x = true := by
  rw [hproduced]
  constructor
  · rintro (⟨o, ho, hmem⟩ | ⟨b, hb, hmem⟩)
    · obtain ⟨i, hi⟩ := List.mem_iff_getElem?.1 hmem
      cases hv.symm.trans (h.result.1 hi)
      exact decide_eq_true ho
    · obtain ⟨i, hi⟩ := List.mem_iff_getElem?.1 hmem
      cases hv.symm.trans (h.argument.1 hi)
      exact decide_eq_true hb
  · intro hpoints
    have hlisted := (h.listed hx).2 hv
    cases x with
    | result o i =>
        exact Or.inl ⟨o, of_decide_eq_true hpoints, List.mem_of_getElem? hlisted⟩
    | argument b? i? =>
        cases b? with
        | none => cases hpoints
        | some b =>
            cases i? with
            | none => cases hlisted
            | some i =>
                exact Or.inr ⟨b, of_decide_eq_true hpoints, List.mem_of_getElem? hlisted⟩

/-- Producers and their values go together. -/
theorem prune (h : Produced g) {t : Subtree} {produced : List Value}
    (hproduced : ∀ v, v ∈ produced ↔
      (∃ o ∈ t.ops, v ∈ g.resultsOf o) ∨ ∃ b ∈ t.blocks, v ∈ g.argsOf b) (o : Op) :
    Produced (g.prune o t produced) where
  listed := by
    intro x v hx
    have hgoes : g.origin? v = some x → (v ∈ produced ↔ pointsInto t x = true) :=
      h.mem_produced_iff hproduced hx
    rw [listedAt?_prune, origin?_prune]
    by_cases hv : v ∈ produced
    · rw [if_pos hv]
      refine iff_of_false (fun hlisted => ?_) fun heq => by cases heq
      split at hlisted
      · cases hlisted
      · rename_i hpoints
        exact hpoints ((hgoes ((h.listed hx).1 hlisted)).1 hv)
    · rw [if_neg hv]
      split
      · rename_i hpoints
        exact iff_of_false (fun heq => by cases heq) fun heq => hv ((hgoes heq).2 hpoints)
      · exact h.listed hx

end Produced

end RegionIR.Graph
