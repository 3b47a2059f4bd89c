import RegionIR.Proofs.Graph.Consistent
import RegionIR.Proofs.Graph.Endless

/-!
# Where verification meets a fault

Verification is meant for broken graphs, so most of its look-ups are prepared
to find nothing.  Those of results, of arguments, of listed blocks and of
listed operations are not.  A handle of one of these four kinds that leads
nowhere ends the whole pass, and whatever had been found by then is lost, the
complaint of a rule about the very same handle included.

The walk up from a parent block may go round even where the walk down ends.
Apart from extra verifiers nothing else can go wrong.

## Main results

* `Graph.Stumbles` — the causes.
* `Graph.blockInside_eq_error_iff` — the walk up has no answer just where it has no end.
* `Graph.stops_failures` — verification ends unless there is a cause.
-/

namespace RegionIR

/-- A look-up finds nothing, and the fault says so. -/
def Table.Misses {k : EntityKind} {β : Type} (t : Table (Handle k) β) (x : Handle k)
    (c : Fault) : Prop :=
  t.find? x = none ∧ c = .missing k

theorem Table.stops_demand {k : EntityKind} {β : Type} (t : Table (Handle k) β) (x : Handle k) :
    Stops (t.demand x) (t.Misses x) :=
  (Stops.self _).congr fun _ => Table.demand_eq_error_iff

theorem Rule.stops_collect {τ : Type} {target : τ} (rules : List (Rule τ)) :
    Stops (collect target rules) fun c => ∃ rule ∈ rules, rule.check target = .error c := by
  induction rules with
  | nil =>
      rintro c ⟨rule, hrule, -⟩
      cases hrule
  | cons rule rest ih =>
      have hstops : Stops (collect target (rule :: rest)) fun c =>
          rule.check target = .error c ∨ ∃ rule ∈ rest, rule.check target = .error c := by
        refine (Stops.self (rule.check target)).bind fun outcome _ => ?_
        cases outcome with
        | none => exact ih.bind_pure fun failures => failures
        | some message => exact ih.bind_pure fun failures => ⟨rule.name, message⟩ :: failures
      refine hstops.congr fun c => ?_
      simp only [List.mem_cons, exists_eq_or_imp]

namespace Graph

variable {V : Type} {g : Graph V}

/-! ## The walk up from a parent block -/

/-- From a block that no endless way leads up from, the walk ends within some number of steps. -/
theorem exists_blockInsideWithin {regions : List Region} {b : Block}
    (h : Acc (g.Above regions) b) :
    ∃ steps inside, g.blockInsideWithin regions steps b = .ok inside := by
  induction h with
  | intro b _ ih =>
      cases howner : g.owner? b with
      | none => exact ⟨1, false, by rw [blockInsideWithin_succ, howner]⟩
      | some r =>
          by_cases hr : r ∈ regions
          · exact ⟨1, true, by rw [blockInsideWithin_succ, howner]; exact if_pos hr⟩
          · cases haround : g.blockAround? r with
            | none =>
                refine ⟨1, false, ?_⟩
                rw [blockInsideWithin_succ, howner]
                dsimp only
                rw [if_neg hr, haround]
            | some b' =>
                obtain ⟨steps, inside, h⟩ := ih b' ⟨r, howner, hr, haround⟩
                refine ⟨steps + 1, inside, ?_⟩
                rw [blockInsideWithin_succ, howner]
                dsimp only
                rw [if_neg hr, haround]
                exact h

theorem eq_endlessNesting_of_blockInsideWithin {regions : List Region} {steps : Nat} {b : Block}
    {c : Fault} (h : g.blockInsideWithin regions steps b = .error c) : c = .endlessNesting := by
  induction steps generalizing b with
  | zero =>
      cases h
      rfl
  | succ steps ih =>
      rw [blockInsideWithin_succ] at h
      split at h
      · cases h
      · split at h
        · cases h
        · split at h
          · cases h
          · exact ih h

/-- The walk up has no answer just where it has no end. -/
theorem blockInside_eq_error_iff {regions : List Region} {b : Block} {c : Fault} :
    g.blockInside b regions = .error c ↔ ¬ Acc (g.Above regions) b ∧ c = .endlessNesting := by
  constructor
  · intro h
    refine ⟨fun hacc => ?_, eq_endlessNesting_of_blockInsideWithin h⟩
    obtain ⟨steps, inside, hinside⟩ := exists_blockInsideWithin hacc
    cases h.symm.trans (blockInside_eq_of_within hinside)
  · rintro ⟨hround, rfl⟩
    cases h : g.blockInside b regions with
    | ok inside => exact absurd (acc_of_blockInsideWithin h) hround
    | error c => rw [eq_endlessNesting_of_blockInsideWithin h]

end Graph

/-- The rule about the parent is the only built-in rule that may have no answer. -/
theorem OpView.badParent_eq_error_iff {V : Type} {w : OpView V} {c : Fault} :
    w.badParent = .error c ↔ ∃ b, w.data.parent = some b ∧
      w.graph.blocks.contains b = true ∧ ¬ Acc (w.graph.Above w.data.regions) b ∧
        c = .endlessNesting := by
  unfold badParent
  cases w.data.parent with
  | none => exact iff_of_false (fun h => by cases h) (by simp)
  | some b =>
      dsimp only
      cases hlive : w.graph.blocks.contains b with
      | false =>
          rw [if_pos (by decide)]
          exact iff_of_false (fun h => by cases h) (by simp [hlive])
      | true =>
          rw [if_neg (by decide)]
          cases hinside : w.graph.blockInside b w.data.regions with
          | error c' =>
              obtain ⟨hround, rfl⟩ := Graph.blockInside_eq_error_iff.1 hinside
              constructor
              · intro h
                cases h
                exact ⟨b, rfl, hlive, hround, rfl⟩
              · rintro ⟨_, _, _, _, rfl⟩
                rfl
          | ok inside =>
              have hacc := Graph.acc_of_blockInsideWithin hinside
              rw [ok_bind]
              cases inside <;> exact iff_of_false (fun h => by cases h) (by simp [hacc])

namespace Graph

variable {V : Type} {g : Graph V}

/-! ## The causes -/

/-- What is nested in an operation that is listed below another one is nested in that one too. -/
theorem Below.within {o o₁ o' : Op} (ho₁ : g.Below o₁ o) (hin : g.Within (.op o') (.op o₁)) :
    g.Within (.op o') (.op o) := by
  obtain ⟨r, hr, b, hb, ho₁⟩ := ho₁
  exact within_op_iff.2 (Or.inr ⟨r, hr, b, hb, o₁, ho₁, hin⟩)

/-- What some operation within another one does is done by that one or by one below. -/
theorem exists_within_op_iff {P : Op → Prop} {o : Op} :
    (∃ o', g.Within (.op o') (.op o) ∧ P o') ↔
      P o ∨ ∃ o₁, g.Below o₁ o ∧ ∃ o', g.Within (.op o') (.op o₁) ∧ P o' := by
  constructor
  · rintro ⟨o', hin, h⟩
    rcases within_op_iff.1 hin with rfl | ⟨r, hr, b, hb, o₁, ho₁, hin⟩
    · exact Or.inl h
    · exact Or.inr ⟨o₁, ⟨r, hr, b, hb, ho₁⟩, o', hin, h⟩
  · rintro (h | ⟨o₁, ho₁, o', hin, h⟩)
    · exact ⟨o, .refl, h⟩
    · exact ⟨o', ho₁.within hin, h⟩

/-- A cause for a fault in the pass over one operation and what its regions list. -/
inductive StumblesAt (g : Graph V) (o : Op) (c : Fault) : Prop where
  | result {v : Value} (hv : v ∈ g.resultsOf o) (h : g.values.Misses v c)
  | block {r : Region} {b : Block} (hr : r ∈ g.regionsOf o) (hb : b ∈ g.blocksIn r)
      (h : g.blocks.Misses b c)
  | argument {r : Region} {b : Block} {v : Value} (hr : r ∈ g.regionsOf o)
      (hb : b ∈ g.blocksIn r) (hv : v ∈ g.argsOf b) (h : g.values.Misses v c)
  | listed {r : Region} {b : Block} {o' : Op} (hr : r ∈ g.regionsOf o) (hb : b ∈ g.blocksIn r)
      (ho' : o' ∈ g.opsIn b) (h : g.ops.Misses o' c)
  | upward {d : OpData V} {b : Block} (hd : g.ops.find? o = some d) (hparent : d.parent = some b)
      (hb : g.blocks.contains b = true) (hround : ¬ Acc (g.Above d.regions) b)
      (h : c = .endlessNesting)

/-- A cause for a fault in the pass over an operation and everything nested in it. -/
def Stumbles (g : Graph V) (root : Op) (c : Fault) : Prop :=
  ∃ o, g.Within (.op o) (.op root) ∧ g.StumblesAt o c

theorem stumbles_iff {o : Op} {c : Fault} :
    g.Stumbles o c ↔ g.StumblesAt o c ∨ ∃ o', g.Below o' o ∧ g.Stumbles o' c :=
  exists_within_op_iff

/-! ## The levels of the walk -/

theorem stops_staleUses (v : Value) : Stops (g.staleUses v) (g.values.Misses v) :=
  (Table.stops_demand g.values v).bind_pure _

theorem stops_brokenArgument (b : Block) (arg : Value × Nat) :
    Stops (g.brokenArgument b arg) (g.values.Misses arg.1) := by
  refine ((Table.stops_demand g.values arg.1).bind fun d _ =>
    (stops_staleUses arg.1).bind_pure _).congr fun c => ?_
  rw [or_self]

section Levels

variable {visit : Op → Except Fault (List RuleFailure)} {inner : Op → Fault → Prop}

theorem stops_listedFailures (b : Block) (last : Option Op) {o : Op}
    (hvisit : Stops (visit o) (inner o)) :
    Stops (g.listedFailures visit b last o) fun c => g.ops.Misses o c ∨ inner o c :=
  (Table.stops_demand g.ops o).bind fun _ _ => hvisit.bind_pure _

/-- A cause for a fault in the pass over a block. -/
def BlockStumbles (g : Graph V) (inner : Op → Fault → Prop) (b : Block) (c : Fault) : Prop :=
  g.blocks.Misses b c ∨ (∃ v ∈ g.argsOf b, g.values.Misses v c) ∨
    ∃ o ∈ g.opsIn b, g.ops.Misses o c ∨ inner o c

theorem stops_blockFailures {r : Region} {b : Block}
    (hvisit : ∀ o ∈ g.opsIn b, Stops (visit o) (inner o)) :
    Stops (g.blockFailures visit r b) (g.BlockStumbles inner b) := by
  refine (Table.stops_demand g.blocks b).bind fun d hd => ?_
  have hfind := Table.demand_eq_ok_iff.1 hd
  rw [argsOf_eq hfind, opsIn_eq hfind]
  rw [opsIn_eq hfind] at hvisit
  have hargs := Stops.mapM fun arg (_ : arg ∈ d.args.zipIdx) =>
    stops_brokenArgument (g := g) b arg
  have hops := Stops.mapM fun o ho =>
    stops_listedFailures (g := g) b d.ops.back? (hvisit o ho)
  refine (hargs.bind fun _ _ => hops.bind_pure _).congr fun c => or_congr_left ?_
  -- Positions play no part in whether an argument is there.
  constructor
  · rintro ⟨arg, harg, h⟩
    exact ⟨arg.1, List.fst_mem_of_mem_zipIdx harg, h⟩
  · rintro ⟨v, hv, h⟩
    obtain ⟨i, hi⟩ := List.mem_iff_getElem?.1 hv
    exact ⟨(v, i), List.mem_zipIdx_iff_getElem?.2 hi, h⟩

/-- A region that is missing lists no blocks. -/
theorem stops_regionFailures {o : Op} {r : Region}
    (hvisit : ∀ b ∈ g.blocksIn r, ∀ o ∈ g.opsIn b, Stops (visit o) (inner o)) :
    Stops (g.regionFailures visit o r) fun c => ∃ b ∈ g.blocksIn r, g.BlockStumbles inner b c := by
  unfold regionFailures
  cases hfind : g.regions.find? r with
  | none =>
      rintro c ⟨b, hb, -⟩
      rw [blocksIn, hfind] at hb
      cases hb
  | some d =>
      rw [blocksIn_eq hfind] at hvisit ⊢
      exact (Stops.mapM fun b hb => stops_blockFailures (r := r) (hvisit b hb)).bind_pure _

end Levels

section Walk

variable [OpVerifier V]

/-- No extra verifier of something in an operation meets a fault. -/
def VerifiersAnswer (g : Graph V) (root : Op) : Prop :=
  ∀ {o d v}, g.Within (.op o) (.op root) → g.ops.find? o = some d → v ∈ d.verifiers →
    ∃ outcome, OpVerifier.check v ⟨g, o, d⟩ = .ok outcome

theorem VerifiersAnswer.of_below {o o' : Op} (h : g.VerifiersAnswer o) (ho' : g.Below o' o) :
    g.VerifiersAnswer o' :=
  fun hin hd hv => h (ho'.within hin) hd hv

theorem stops_rules {o : Op} {d : OpData V} (hd : g.ops.find? o = some d)
    (hverifiers : g.VerifiersAnswer o) :
    Stops (OpView.mk g o d).failures fun c => ∃ b, d.parent = some b ∧
      g.blocks.contains b = true ∧ ¬ Acc (g.Above d.regions) b ∧ c = .endlessNesting := by
  refine (Rule.stops_collect _).congr fun c => ?_
  rw [← OpView.badParent_eq_error_iff (w := ⟨g, o, d⟩)]
  constructor
  · rintro ⟨rule, hrule, h⟩
    rw [OpView.rules, List.mem_append, List.mem_append] at hrule
    rcases hrule with (hbuiltin | htrait) | hextra
    · simp only [OpView.builtinRules, List.mem_cons, List.not_mem_nil, or_false] at hbuiltin
      rcases hbuiltin with rfl | rfl | rfl | rfl | rfl
      · cases h
      · cases h
      · cases h
      · cases h
      · exact h
    · obtain ⟨t, -, rfl⟩ := List.mem_map.1 htrait
      cases h
    · obtain ⟨v, hv, rfl⟩ := List.mem_map.1 hextra
      obtain ⟨outcome, houtcome⟩ := hverifiers .refl hd hv
      cases houtcome.symm.trans h
  · intro h
    exact ⟨⟨"parent-acyclic", OpView.badParent⟩, by simp [OpView.rules, OpView.builtinRules], h⟩

theorem stops_failuresWithin_succ {levels : Nat} {o : Op} {d : OpData V}
    {inner : Op → Fault → Prop} (hd : g.ops.find? o = some d) (hverifiers : g.VerifiersAnswer o)
    (hvisit : ∀ o', g.Below o' o → Stops (g.failuresWithin levels o') (inner o')) :
    Stops (g.failuresWithin (levels + 1) o) fun c =>
      g.StumblesAt o c ∨ ∃ o', g.Below o' o ∧ inner o' c := by
  have hop : g.op o = .ok d := Table.demand_eq_ok_iff.2 hd
  have hresults := Stops.mapM fun v (_ : v ∈ d.results) => stops_staleUses (g := g) v
  have hregions : Stops (d.regions.mapM (g.regionFailures (g.failuresWithin levels) o)) fun c =>
      ∃ r ∈ d.regions, ∃ b ∈ g.blocksIn r, g.BlockStumbles inner b c := by
    refine Stops.mapM fun r hr => stops_regionFailures fun b hb o' ho' => ?_
    exact hvisit o' ⟨r, regionsOf_eq hd ▸ hr, b, hb, ho'⟩
  rw [failuresWithin, hop, ok_bind]
  refine ((stops_rules hd hverifiers).bind fun _ _ => hresults.bind fun _ _ =>
    hregions.bind_pure _).congr fun c => ?_
  rw [← resultsOf_eq hd, ← regionsOf_eq hd]
  constructor
  · rintro (⟨b, hparent, hb, hround, hc⟩ | ⟨v, hv, h⟩ | ⟨r, hr, b, hb, h⟩)
    · exact Or.inl (.upward hd hparent hb (regionsOf_eq hd ▸ hround) hc)
    · exact Or.inl (.result hv h)
    · rcases h with h | ⟨v, hv, h⟩ | ⟨o', ho', h | h⟩
      · exact Or.inl (.block hr hb h)
      · exact Or.inl (.argument hr hb hv h)
      · exact Or.inl (.listed hr hb ho' h)
      · exact Or.inr ⟨o', ⟨r, hr, b, hb, ho'⟩, h⟩
  · rintro (h | ⟨o', ⟨r, hr, b, hb, ho'⟩, h⟩)
    · cases h with
      | result hv h => exact Or.inr (Or.inl ⟨_, hv, h⟩)
      | block hr hb h => exact Or.inr (Or.inr ⟨_, hr, _, hb, Or.inl h⟩)
      | argument hr hb hv h => exact Or.inr (Or.inr ⟨_, hr, _, hb, Or.inr (Or.inl ⟨_, hv, h⟩)⟩)
      | listed hr hb ho' h =>
          exact Or.inr (Or.inr ⟨_, hr, _, hb, Or.inr (Or.inr ⟨_, ho', Or.inl h⟩)⟩)
      | upward hd' hparent hb hround h =>
          cases hd.symm.trans hd'
          rw [regionsOf_eq hd]
          exact Or.inl ⟨_, hparent, hb, hround, h⟩
    · exact Or.inr (Or.inr ⟨r, hr, b, hb, Or.inr (Or.inr ⟨o', ho', Or.inr h⟩)⟩)

/-- With the levels that are left after a way down, nothing but the causes stops the walk. -/
theorem stops_failuresWithin {levels : Nat} {o : Op} {seen : List Op} (hacc : Acc g.Below o)
    (hverifiers : g.VerifiersAnswer o) (hpassed : Passed g.Below g.ops seen o)
    (hlevels : levels + seen.length = g.ops.size + 1) :
    Stops (g.failuresWithin levels o) fun c => g.ops.Misses o c ∨ g.Stumbles o c := by
  induction levels generalizing o seen with
  | zero =>
      have hle := hpassed.length_le
      omega
  | succ levels ih =>
      cases hd : g.ops.find? o with
      | none =>
          have hop : g.op o = .error (.missing .op) := Table.demand_eq_error_iff.2 ⟨hd, rfl⟩
          rw [failuresWithin, hop]
          exact Or.inl ⟨hd, rfl⟩
      | some d =>
          have hlive : g.ops.contains o = true := Table.contains_iff.2 ⟨d, hd⟩
          have hvisit : ∀ o', g.Below o' o → Stops (g.failuresWithin levels o') fun c =>
              g.ops.Misses o' c ∨ g.Stumbles o' c := by
            intro o' ho'
            refine ih (hacc.inv ho') (hverifiers.of_below ho') (hpassed.cons hlive hacc ho') ?_
            rw [List.length_cons]
            omega
          refine (stops_failuresWithin_succ hd hverifiers hvisit).congr fun c => ?_
          rw [stumbles_iff]
          constructor
          · rintro (h | ⟨o', ho', h | h⟩)
            · exact Or.inr (Or.inl h)
            · obtain ⟨r, hr, b, hb, hlisted⟩ := ho'
              exact Or.inr (Or.inl (.listed hr hb hlisted h))
            · exact Or.inr (Or.inr ⟨o', ho', h⟩)
          · rintro (⟨hnone, -⟩ | h | ⟨o', ho', h⟩)
            · cases hd.symm.trans hnone
            · exact Or.inl h
            · exact Or.inr ⟨o', ho', Or.inr h⟩

/-- Where the walk down from an operation of the graph ends, verification ends too, unless there is
a cause for a fault. -/
theorem stops_failures {root : Op} (hroot : g.ops.contains root = true) (hacc : Acc g.Below root)
    (hverifiers : g.VerifiersAnswer root) : Stops (g.failures root) (g.Stumbles root) := by
  refine (stops_failuresWithin hacc hverifiers (.nil _ _ root) rfl).congr fun c => ?_
  obtain ⟨d, hd⟩ := Table.contains_iff.1 hroot
  have hfound : ¬ g.ops.Misses root c := by
    rintro ⟨hnone, -⟩
    cases hd.symm.trans hnone
  rw [or_iff_right hfound]

end Walk

end Graph

end RegionIR
