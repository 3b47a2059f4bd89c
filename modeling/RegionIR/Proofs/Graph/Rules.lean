import RegionIR.Proofs.Graph.Walks
import RegionIR.Proofs.Invariants.Laws

/-!
# What the rules of an operation decide

Each rule looks for the first problem in a list.  That it finds none is a
statement about all entries of the list, in which the order of the search and
the text of the complaint play no part.

Nothing is assumed of the graph.  The walk up from a parent block may meet a
fault, and then the rules decide nothing.

## Main results

* `OpView.missingOperand_eq_none_iff`, `OpView.foreignResult_eq_none_iff`,
  `OpView.foreignRegion_eq_none_iff`, `OpView.missingSuccessor_eq_none_iff`,
  `OpView.badParent_eq_none_iff`
* `Rule.forall_check_of_collect` — no failure means that every rule passed.
* `Rule.settles_collect` — failures stem from rules that did not pass.
* `OpView.exists_badParent` — the rule about the parent ends where nesting has no cycle.
* `OpView.decides_failures` — all rules together.
-/

namespace RegionIR

/-- Where checks end, they report nothing just if the condition holds. -/
def Decides (r : Except Fault (List RuleFailure)) (P : Prop) : Prop :=
  ∀ failures, r = .ok failures → (failures = [] ↔ P)

namespace Rule

variable {τ : Type} {target : τ}

/-- Where no failure is collected, every rule has passed. -/
theorem forall_check_of_collect {rules : List (Rule τ)} (h : collect target rules = .ok []) :
    ∀ rule ∈ rules, rule.check target = .ok none := by
  induction rules with
  | nil =>
      intro rule hrule
      cases hrule
  | cons rule rest ih =>
      unfold collect at h
      cases hcheck : rule.check target with
      | error c =>
          rw [hcheck] at h
          cases h
      | ok outcome =>
          rw [hcheck, ok_bind] at h
          cases hrest : collect target rest with
          | error c =>
              rw [hrest] at h
              cases h
          | ok failures =>
              rw [hrest, ok_bind] at h
              cases outcome with
              | some message => cases h
              | none =>
                  injection h with h
                  subst h
                  intro rule' hrule'
                  rcases List.mem_cons.1 hrule' with rfl | hmem
                  · exact hcheck
                  · exact ih hrest rule' hmem

/-- What is collected stems from rules that did not pass, and so does a fault. -/
theorem settles_collect {P : RuleFailure → Prop} {fault : Fault → Prop} {rules : List (Rule τ)}
    (h : ∀ rule ∈ rules, Settles (rule.check target)
      (fun outcome => ∀ message, outcome = some message → P ⟨rule.name, message⟩) fault) :
    Settles (collect target rules) (fun failures => ∀ f ∈ failures, P f) fault := by
  induction rules with
  | nil =>
      intro f hf
      cases hf
  | cons rule rest ih =>
      unfold collect
      rw [settles_bind]
      refine (h rule List.mem_cons_self).mono fun outcome houtcome => ?_
      rw [settles_bind]
      refine (ih fun rule' hrule' => h rule' (List.mem_cons_of_mem rule hrule')).mono
        fun failures hfailures => ?_
      cases outcome with
      | none => exact hfailures
      | some message =>
          intro f hf
          rcases List.mem_cons.1 hf with rfl | hf
          · exact houtcome message rfl
          · exact hfailures f hf

/-- A record is the complaint of a rule. -/
theorem exists_check_of_mem_collect {rules : List (Rule τ)} {failures : List RuleFailure}
    (h : collect target rules = .ok failures) {f : RuleFailure} (hf : f ∈ failures) :
    ∃ rule ∈ rules, rule.name = f.rule ∧ rule.check target = .ok (some f.message) := by
  induction rules generalizing failures with
  | nil =>
      cases h
      cases hf
  | cons rule rest ih =>
      unfold collect at h
      obtain ⟨outcome, hcheck, h⟩ := bind_eq_ok_iff.1 h
      obtain ⟨others, hothers, h⟩ := bind_eq_ok_iff.1 h
      have hrest : f ∈ others → ∃ rule' ∈ rule :: rest,
          rule'.name = f.rule ∧ rule'.check target = .ok (some f.message) := by
        intro hmem
        obtain ⟨rule', hrule', hcomplaint⟩ := ih hothers hmem
        exact ⟨rule', List.mem_cons_of_mem rule hrule', hcomplaint⟩
      cases outcome with
      | none =>
          cases h
          exact hrest hf
      | some message =>
          cases h
          rcases List.mem_cons.1 hf with rfl | hmem
          · exact ⟨rule, List.mem_cons_self, rfl, hcheck⟩
          · exact hrest hmem

/-- Every complaint of a rule is recorded. -/
theorem mem_collect_of_check {rules : List (Rule τ)} {failures : List RuleFailure}
    (h : collect target rules = .ok failures) {rule : Rule τ} (hrule : rule ∈ rules)
    {message : String} (hcheck : rule.check target = .ok (some message)) :
    ⟨rule.name, message⟩ ∈ failures := by
  induction rules generalizing failures with
  | nil => cases hrule
  | cons first rest ih =>
      unfold collect at h
      obtain ⟨outcome, hfirst, h⟩ := bind_eq_ok_iff.1 h
      obtain ⟨others, hothers, h⟩ := bind_eq_ok_iff.1 h
      rcases List.mem_cons.1 hrule with rfl | hmem
      · cases hcheck.symm.trans hfirst
        cases h
        exact List.mem_cons_self
      · have hlater := ih hothers hmem
        cases outcome with
        | none =>
            cases h
            exact hlater
        | some _ =>
            cases h
            exact List.mem_cons_of_mem _ hlater

/-- Rules are collected only where none of them meets a fault. -/
theorem exists_check_of_collect {rules : List (Rule τ)} {failures : List RuleFailure}
    (h : collect target rules = .ok failures) :
    ∀ rule ∈ rules, ∃ outcome, rule.check target = .ok outcome := by
  induction rules generalizing failures with
  | nil =>
      intro rule hrule
      cases hrule
  | cons rule rest ih =>
      unfold collect at h
      obtain ⟨outcome, hcheck, h⟩ := bind_eq_ok_iff.1 h
      obtain ⟨others, hothers, -⟩ := bind_eq_ok_iff.1 h
      intro rule' hrule'
      rcases List.mem_cons.1 hrule' with rfl | hmem
      · exact ⟨outcome, hcheck⟩
      · exact ih hothers rule' hmem

theorem collect_eq_nil {rules : List (Rule τ)}
    (h : ∀ rule ∈ rules, rule.check target = .ok none) : collect target rules = .ok [] := by
  induction rules with
  | nil => rfl
  | cons rule rest ih =>
      have hfirst := h rule List.mem_cons_self
      have hrest := ih fun rule' hrule' => h rule' (List.mem_cons_of_mem rule hrule')
      unfold collect
      rw [hfirst, ok_bind, hrest, ok_bind]
      rfl

/-- A list of rules decides that every one of them passes. -/
theorem decides_collect (rules : List (Rule τ)) :
    Decides (collect target rules) (∀ rule ∈ rules, rule.check target = .ok none) := by
  intro failures h
  constructor
  · intro heq
    subst heq
    exact forall_check_of_collect h
  · intro hpass
    exact Except.ok.inj (h.symm.trans (collect_eq_nil hpass))

end Rule

namespace Graph

variable {V : Type} {g : Graph V}

/-! ## The walk up from a parent block -/

/-- A block lies in a region, at any depth, along the links that entities have to their
containers.  A link that leads nowhere ends the way. -/
inductive Inside (g : Graph V) : Block → Region → Prop where
  | owner {b : Block} {r : Region} (h : g.owner? b = some r) : Inside g b r
  | around {b b' : Block} {r r' : Region} (howner : g.owner? b = some r)
      (haround : g.blockAround? r = some b') (h : Inside g b' r') : Inside g b r'

theorem inside_iff {b : Block} {r : Region} :
    g.Inside b r ↔ ∃ r', g.owner? b = some r' ∧
      (r = r' ∨ ∃ b', g.blockAround? r' = some b' ∧ g.Inside b' r) := by
  constructor
  · intro h
    cases h with
    | owner howner => exact ⟨r, howner, Or.inl rfl⟩
    | around howner haround h => exact ⟨_, howner, Or.inr ⟨_, haround, h⟩⟩
  · rintro ⟨r', howner, rfl | ⟨b', haround, h⟩⟩
    · exact .owner howner
    · exact .around howner haround h

/-- The walk up from a block tells whether the block lies in one of the regions. -/
theorem inside_of_blockInsideWithin {regions : List Region} {steps : Nat} {b : Block}
    {inside : Bool} (h : g.blockInsideWithin regions steps b = .ok inside) :
    inside = true ↔ ∃ r ∈ regions, g.Inside b r := by
  induction steps generalizing b with
  | zero => cases h
  | succ steps ih =>
      rw [blockInsideWithin_succ] at h
      cases howner : g.owner? b with
      | none =>
          rw [howner] at h
          cases h
          refine iff_of_false (fun heq => by cases heq) ?_
          rintro ⟨r, -, hin⟩
          obtain ⟨r', hr', -⟩ := inside_iff.1 hin
          rw [howner] at hr'
          cases hr'
      | some r =>
          rw [howner] at h
          dsimp only at h
          by_cases hr : r ∈ regions
          · rw [if_pos hr] at h
            cases h
            exact iff_of_true rfl ⟨r, hr, .owner howner⟩
          · rw [if_neg hr] at h
            -- The owner is not among the regions, so one of them is found further up or not at all.
            have hup : (∃ r' ∈ regions, g.Inside b r') ↔
                ∃ r' ∈ regions, ∃ b', g.blockAround? r = some b' ∧ g.Inside b' r' := by
              refine exists_congr fun r' => and_congr_right fun hr' => ?_
              have hne : r' ≠ r := fun heq => hr (heq ▸ hr')
              rw [inside_iff]
              simp [howner, hne]
            rw [hup]
            cases haround : g.blockAround? r with
            | none =>
                rw [haround] at h
                cases h
                simp
            | some b' =>
                rw [haround] at h
                simpa using ih h

end Graph

namespace OpView

variable {V : Type} (w : OpView V)

theorem missingOperand_eq_none_iff (i : Nat) (operands : List Value) :
    w.missingOperand i operands = none ↔ ∀ v ∈ operands, w.graph.values.contains v = true := by
  induction operands generalizing i with
  | nil => simp [missingOperand]
  | cons v rest ih =>
      unfold missingOperand
      split
      · rename_i hv
        rw [ih]
        simp [hv]
      · rename_i hv
        simp [hv]

theorem foreignResult_eq_none_iff (k : Nat) (results : List Value) :
    w.foreignResult k results = none ↔
      ∀ i v, results[i]? = some v → w.graph.origin? v = some (.result w.op (k + i)) := by
  induction results generalizing k with
  | nil => simp [foreignResult]
  | cons v rest ih =>
      unfold foreignResult
      split
      · rename_i hv
        rw [ih]
        constructor
        · intro h i v' hi
          cases i with
          | zero =>
              cases hi
              exact hv
          | succ i =>
              have hnext := h i v' hi
              rwa [show k + 1 + i = k + (i + 1) by omega] at hnext
        · intro h i v' hi
          have hnext := h (i + 1) v' hi
          rwa [show k + (i + 1) = k + 1 + i by omega] at hnext
      · rename_i hv
        refine iff_of_false (fun hnone => by cases hnone) fun h => hv ?_
        exact h 0 v rfl

theorem foreignRegion_eq_none_iff (seen regions : List Region) :
    w.foreignRegion seen regions = none ↔ regions.Nodup ∧ ∀ r ∈ regions, r ∉ seen ∧
      w.graph.regions.contains r = true ∧
        ∀ parent, w.graph.holder? r = some parent → parent = w.op := by
  induction regions generalizing seen with
  | nil => simp [foreignRegion]
  | cons r rest ih =>
      -- The first region is new and free or held by the operation; the others come after it.
      have hgo : w.foreignRegion (r :: seen) rest = none ↔ (r ∉ rest ∧ rest.Nodup) ∧
          ∀ r' ∈ rest, r' ∉ seen ∧ w.graph.regions.contains r' = true ∧
            ∀ parent, w.graph.holder? r' = some parent → parent = w.op := by
        rw [ih]
        constructor
        · rintro ⟨hnodup, hall⟩
          refine ⟨⟨fun hr => (hall r hr).1 List.mem_cons_self, hnodup⟩, fun r' hr' => ?_⟩
          obtain ⟨hseen, hrest⟩ := hall r' hr'
          exact ⟨fun hmem => hseen (List.mem_cons_of_mem r hmem), hrest⟩
        · rintro ⟨⟨hnot, hnodup⟩, hall⟩
          refine ⟨hnodup, fun r' hr' => ⟨fun hmem => ?_, (hall r' hr').2⟩⟩
          rcases List.mem_cons.1 hmem with rfl | hmem
          · exact hnot hr'
          · exact (hall r' hr').1 hmem
      rw [List.nodup_cons, List.forall_mem_cons]
      unfold foreignRegion
      by_cases hseen : r ∈ seen
      · simp [hseen]
      · rw [if_neg hseen]
        cases hd : w.graph.regions.find? r with
        | none => simp [Table.contains, hd]
        | some d =>
            have hholder := Graph.holder?_eq hd
            have hlive : w.graph.regions.contains r = true := Table.contains_iff.2 ⟨d, hd⟩
            cases hparent : d.parent with
            | none => simp [hgo, hseen, hlive, hholder, hparent]
            | some parent =>
                by_cases heq : parent = w.op
                · simp [hgo, hseen, hlive, hholder, hparent, heq]
                · simp [hholder, hparent, heq]

theorem missingSuccessor_eq_none_iff :
    w.missingSuccessor = none ↔ ∀ b ∈ w.data.successors, w.graph.blocks.contains b = true := by
  unfold missingSuccessor
  rw [Option.map_eq_none_iff, List.find?_eq_none]
  simp

/-- The walk up from the parent block ends where links agree with lists and nesting has no cycle,
and it finds the regions that the block is nested in. -/
theorem exists_badParent (ho : w.graph.Owned) (ha : w.graph.Acyclic) :
    ∃ outcome, w.badParent = .ok outcome ∧ (outcome = none ↔ ∀ b, w.data.parent = some b →
      w.graph.blocks.contains b = true ∧
        ∀ r ∈ w.data.regions, ¬ w.graph.Encloses (.region r) (.block b)) := by
  unfold badParent
  cases w.data.parent with
  | none => exact ⟨none, rfl, by simp⟩
  | some b =>
      obtain ⟨inside, hinside, hiff⟩ := Graph.blockInside_eq_ok ho ha b w.data.regions
      dsimp only
      rw [hinside, ok_bind]
      cases hlive : w.graph.blocks.contains b with
      | false => exact ⟨_, rfl, by simp [hlive]⟩
      | true =>
          cases inside with
          | true =>
              refine ⟨_, rfl, iff_of_false (fun hnone => by cases hnone) fun hall => ?_⟩
              obtain ⟨r, hr, hin⟩ := hiff.1 rfl
              exact (hall b rfl).2 r hr hin
          | false =>
              refine ⟨none, rfl, iff_of_true rfl fun b' hb' => ?_⟩
              cases hb'
              exact ⟨hlive, fun r hr hin => Bool.false_ne_true (hiff.2 ⟨r, hr, hin⟩)⟩

/-- The built-in rules pass iff none of the five has a complaint. -/
theorem check_builtinRules_iff :
    (∀ rule ∈ builtinRules, rule.check w = .ok none) ↔
      w.missingOperand 0 w.data.operands = none ∧ w.foreignResult 0 w.data.results = none ∧
        w.foreignRegion [] w.data.regions = none ∧ w.missingSuccessor = none ∧
          w.badParent = .ok none := by
  simp [builtinRules]

variable {w}

theorem badParent_eq_none_iff {outcome : Option String} (h : w.badParent = .ok outcome) :
    outcome = none ↔ ∀ b, w.data.parent = some b →
      w.graph.blocks.contains b = true ∧ ∀ r ∈ w.data.regions, ¬ w.graph.Inside b r := by
  unfold badParent at h
  cases hparent : w.data.parent with
  | none =>
      rw [hparent] at h
      cases h
      simp
  | some b =>
      rw [hparent] at h
      dsimp only at h
      cases hlive : w.graph.blocks.contains b with
      | false =>
          rw [hlive, if_pos (by decide)] at h
          cases h
          simp [hlive]
      | true =>
          rw [hlive, if_neg (by decide)] at h
          obtain ⟨inside, hinside, h⟩ := bind_eq_ok_iff.1 h
          have hin := Graph.inside_of_blockInsideWithin hinside
          cases inside with
          | true =>
              cases h
              obtain ⟨r, hr, hin⟩ := hin.1 rfl
              refine iff_of_false (fun hnone => by cases hnone) fun hall => ?_
              exact (hall b rfl).2 r hr hin
          | false =>
              cases h
              refine iff_of_true rfl fun b' hb' => ?_
              cases hb'
              refine ⟨hlive, fun r hr hinside => ?_⟩
              cases hin.2 ⟨r, hr, hinside⟩

/-- The rules of an operation, as conditions on the graph. -/
structure Obeys [OpVerifier V] (w : OpView V) : Prop where
  operands : ∀ v ∈ w.data.operands, w.graph.values.contains v = true
  results : ∀ i v, w.data.results[i]? = some v → w.graph.origin? v = some (.result w.op i)
  regions_nodup : w.data.regions.Nodup
  regions : ∀ r ∈ w.data.regions, w.graph.regions.contains r = true ∧
    ∀ o, w.graph.holder? r = some o → o = w.op
  successors : ∀ b ∈ w.data.successors, w.graph.blocks.contains b = true
  parent : ∀ b, w.data.parent = some b →
    w.graph.blocks.contains b = true ∧ ∀ r ∈ w.data.regions, ¬ w.graph.Inside b r
  traits : ∀ t ∈ w.data.traits, t.Met w.data
  verifiers : ∀ v ∈ w.data.verifiers, OpVerifier.check v w = .ok none

theorem check_traitRule_iff (t : OpTrait) :
    (traitRule t).check w = .ok none ↔ t.Met w.data := by
  rw [← w.brokenTrait_eq_none_iff t]
  exact ⟨Except.ok.inj, congrArg Except.ok⟩

/-- Together the rules decide the conditions that each of them stands for. -/
theorem decides_failures [OpVerifier V] : Decides w.failures w.Obeys := by
  intro failures h
  rw [Rule.decides_collect w.rules failures h]
  obtain ⟨outcome, houtcome⟩ := Rule.exists_check_of_collect h ⟨"parent-acyclic", badParent⟩
    (by simp [rules, builtinRules])
  have hparent : w.badParent = .ok none ↔ ∀ b, w.data.parent = some b →
      w.graph.blocks.contains b = true ∧ ∀ r ∈ w.data.regions, ¬ w.graph.Inside b r := by
    rw [← badParent_eq_none_iff houtcome, show w.badParent = .ok outcome from houtcome]
    exact ⟨Except.ok.inj, congrArg Except.ok⟩
  rw [rules, List.forall_mem_append, List.forall_mem_append, List.forall_mem_map,
    List.forall_mem_map, check_builtinRules_iff, missingOperand_eq_none_iff,
    foreignResult_eq_none_iff, foreignRegion_eq_none_iff, missingSuccessor_eq_none_iff, hparent]
  constructor
  · rintro ⟨⟨⟨hoperands, hresults, ⟨hnodup, hregions⟩, hsuccessors, hparent⟩, htraits⟩, hextra⟩
    refine ⟨hoperands, fun i v hv => ?_, hnodup, fun r hr => (hregions r hr).2, hsuccessors,
      hparent, fun t ht => check_traitRule_iff t |>.1 (htraits t ht), hextra⟩
    rw [hresults i v hv, Nat.zero_add]
  · intro hw
    refine ⟨⟨⟨hw.operands, fun i v hv => ?_, ⟨hw.regions_nodup, fun r hr => ?_⟩, hw.successors,
      hw.parent⟩, fun t ht => check_traitRule_iff t |>.2 (hw.traits t ht)⟩, hw.verifiers⟩
    · rw [hw.results i v hv, Nat.zero_add]
    · exact ⟨List.not_mem_nil, hw.regions r hr⟩

end OpView

end RegionIR
