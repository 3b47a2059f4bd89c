import RegionIR.Edit.Create
import RegionIR.Proofs.Graph.Rules
import RegionIR.Proofs.Invariants.Sound

/-!
# What a request has to meet

The rules of a request are run on a graph that has the results already.  Each of
them asks for something that can be told from the request and from the graph
before it.  The rule about results is the exception: the results have been made
for the operation, so it asks for nothing.

Rules are run one after the other, and none of them stops the others.  So there
is one record for each demand that is not met, in the order of the demands,
whatever the demands are.

What a request asks for and what is asked of it is spelled out of the request
itself.  That the program makes the same entry of it is `OpRequest.data_eq_entry`.

## Main results

* `Rule.Stand.exists_records` — rules that stand for demands leave their records.
* `OpRequest.entry`, `OpRequest.demands` — the entry of a request and the demands on it.
* `Graph.Sound.exists_records`, `Graph.Sound.records_of_failures` — the records of a request.
-/

namespace RegionIR

/-! ## Demands and their records -/

/-- What a rule asks for. -/
structure Demand where
  rule : String
  met : Prop

/-- Each demand that is not met has left a record, in the order of the demands. -/
inductive Records : List Demand → List RuleFailure → Prop where
  | nil : Records [] []
  | met {d : Demand} {rest : List Demand} {failures : List RuleFailure} (h : d.met)
      (hrest : Records rest failures) : Records (d :: rest) failures
  | unmet {d : Demand} {rest : List Demand} {failures : List RuleFailure} (h : ¬ d.met)
      (message : String) (hrest : Records rest failures) :
      Records (d :: rest) (⟨d.rule, message⟩ :: failures)

namespace Records

variable {demands : List Demand} {failures : List RuleFailure}

theorem eq_nil_iff (h : Records demands failures) : failures = [] ↔ ∀ d ∈ demands, d.met := by
  induction h with
  | nil => simp
  | met hmet _ ih => simp [ih, hmet]
  | unmet hunmet _ _ ih => simp [hunmet]

theorem exists_of_mem (h : Records demands failures) {f : RuleFailure} (hf : f ∈ failures) :
    ∃ d ∈ demands, d.rule = f.rule ∧ ¬ d.met := by
  induction h with
  | nil => cases hf
  | met _ _ ih =>
      obtain ⟨d, hd, hrule⟩ := ih hf
      exact ⟨d, List.mem_cons_of_mem _ hd, hrule⟩
  | unmet hunmet message _ ih =>
      rcases List.mem_cons.1 hf with rfl | hmem
      · exact ⟨_, List.mem_cons_self, rfl, hunmet⟩
      · obtain ⟨d, hd, hrule⟩ := ih hmem
        exact ⟨d, List.mem_cons_of_mem _ hd, hrule⟩

end Records

namespace Rule

variable {τ : Type} {target : τ}

/-- Rules that end and stand for demands, but for some that pass anyway. -/
inductive Stand (target : τ) : List (Rule τ) → List Demand → Prop where
  | nil : Stand target [] []
  | pass {rule : Rule τ} {rules : List (Rule τ)} {demands : List Demand}
      (h : rule.check target = .ok none) (hrest : Stand target rules demands) :
      Stand target (rule :: rules) demands
  | demand {rule : Rule τ} {rules : List (Rule τ)} {met : Prop} {demands : List Demand}
      {outcome : Option String} (h : rule.check target = .ok outcome)
      (hmet : outcome = none ↔ met) (hrest : Stand target rules demands) :
      Stand target (rule :: rules) (⟨rule.name, met⟩ :: demands)

namespace Stand

variable {rules rules' : List (Rule τ)} {demands demands' : List Demand}

theorem append (h : Stand target rules demands) (h' : Stand target rules' demands') :
    Stand target (rules ++ rules') (demands ++ demands') := by
  induction h with
  | nil => exact h'
  | pass hcheck _ ih => exact .pass hcheck ih
  | demand hcheck hmet _ ih => exact .demand hcheck hmet ih

theorem map {α : Type} {rule : α → Rule τ} {met : α → Prop} {l : List α}
    (h : ∀ a ∈ l, ∃ outcome, (rule a).check target = .ok outcome ∧ (outcome = none ↔ met a)) :
    Stand target (l.map rule) (l.map fun a => ⟨(rule a).name, met a⟩) := by
  induction l with
  | nil => exact .nil
  | cons a rest ih =>
      obtain ⟨outcome, hcheck, hmet⟩ := h a List.mem_cons_self
      exact .demand hcheck hmet (ih fun b hb => h b (List.mem_cons_of_mem a hb))

/-- No rule stops the others, so each demand that is not met leaves its record. -/
theorem exists_records (h : Stand target rules demands) :
    ∃ failures, collect target rules = .ok failures ∧ Records demands failures := by
  induction h with
  | nil => exact ⟨[], rfl, .nil⟩
  | pass hcheck _ ih =>
      obtain ⟨failures, hcollect, hrecords⟩ := ih
      refine ⟨failures, ?_, hrecords⟩
      rw [collect, hcheck, ok_bind, hcollect, ok_bind]
      rfl
  | @demand rule rules met demands outcome hcheck hmet _ ih =>
      obtain ⟨failures, hcollect, hrecords⟩ := ih
      rw [collect, hcheck, ok_bind, hcollect, ok_bind]
      cases outcome with
      | none => exact ⟨_, rfl, .met (hmet.1 rfl) hrecords⟩
      | some message =>
          have hunmet : ¬ met := fun h => Option.some_ne_none message (hmet.2 h)
          exact ⟨_, rfl, .unmet hunmet message hrecords⟩

end Stand

end Rule

/-! ## The demands on a request -/

variable {V : Type}

/-- The entry that a request asks for: all that it gives, each of its traits once, and an empty
table if one of them is the trait for it. -/
def OpRequest.entry (r : OpRequest V) (results : List Value) : OpData V where
  name := r.name
  operands := r.operands
  results := results
  attrs := r.attrs
  regions := r.regions
  successors := r.successors
  parent := r.parent
  traits := r.traits.eraseDups
  verifiers := r.verifiers
  symbols := if .symbolTable ∈ r.traits then some .empty else none

theorem OpRequest.data_eq_entry (r : OpRequest V) (results : List Value) :
    { r.data results with parent := r.parent } = r.entry results := by
  rw [data, entry, OpTrait.withoutRepeats_eq_eraseDups]
  simp only [List.mem_eraseDups]

/-- The view that the rules of a request are run on. -/
def Graph.requestView (g : Graph V) (o : Op) (first : Nat) (r : OpRequest V) : OpView V where
  graph := g.putResults o first r.resultTypes
  op := o
  data := r.entry (resultHandles first r.resultTypes.length)

/-- What a trait asks of a request. -/
def OpRequest.traitDemand (r : OpRequest V) : OpTrait → Demand
  | .operands n => ⟨"n-operands", r.operands.length = n⟩
  | .variadicOperands => ⟨"variadic-operands", True⟩
  | .results n => ⟨"n-results", r.resultTypes.length = n⟩
  | .variadicResults => ⟨"variadic-results", True⟩
  | .regions n => ⟨"n-regions", r.regions.length = n⟩
  | .symbol => ⟨"symbol", ∃ a name, r.attrs.find? "sym_name" = some a ∧ a.payload = .str name⟩
  | .symbolTable => ⟨"symbol-table", True⟩
  | .terminator => ⟨"terminator", True⟩

theorem OpRequest.symbolName?_entry_iff {r : OpRequest V} {results : List Value} {name : String} :
    (r.entry results).symbolName? = some name ↔
      ∃ a, r.attrs.find? "sym_name" = some a ∧ a.payload = .str name := by
  rw [OpData.symbolName?, Option.bind_eq_some_iff]
  refine exists_congr fun a => and_congr_right fun _ => ?_
  cases a.payload <;> simp [Payload.asStr?]

/-- The demand of a trait is the one that its rule checks. -/
theorem OpRequest.traitDemand_eq (r : OpRequest V) {results : List Value}
    (hlength : results.length = r.resultTypes.length) (t : OpTrait) :
    r.traitDemand t = ⟨t.ruleName, t.Met (r.entry results)⟩ := by
  cases t with
  | results n =>
      show Demand.mk _ _ = ⟨_, (r.entry results).results.length = n⟩
      rw [show (r.entry results).results = results from rfl, hlength]
      rfl
  | symbol =>
      have hmet : (∃ a name, r.attrs.find? "sym_name" = some a ∧ a.payload = .str name) =
          ∃ name, (r.entry results).symbolName? = some name := by
        simp only [symbolName?_entry_iff]
        exact propext exists_comm
      exact congrArg (Demand.mk _) hmet
  | _ => rfl

section Demands

variable [OpVerifier V]

/-- What the rules ask of a request, in a graph that is to get an operation `o` and its results from
`first` on. -/
def OpRequest.demands (g : Graph V) (o : Op) (first : Nat) (r : OpRequest V) : List Demand :=
  [ ⟨"operands-exist", ∀ v ∈ r.operands, g.values.contains v = true ∨
      v ∈ resultHandles first r.resultTypes.length⟩,
    ⟨"regions-owned", r.regions.Nodup ∧ ∀ x ∈ r.regions,
      g.regions.contains x = true ∧ g.holder? x = none⟩,
    ⟨"successors-exist", ∀ b ∈ r.successors, g.blocks.contains b = true⟩,
    ⟨"parent-acyclic", ∀ b, r.parent = some b → g.blocks.contains b = true ∧
      ∀ x ∈ r.regions, ¬ g.Encloses (.region x) (.block b)⟩ ] ++
  r.traits.eraseDups.map r.traitDemand ++
  r.verifiers.map fun v =>
    ⟨OpVerifier.name v, OpVerifier.check v (g.requestView o first r) = .ok none⟩

theorem OpRequest.forall_demands_iff {g : Graph V} {o : Op} {first : Nat} {r : OpRequest V} :
    (∀ d ∈ r.demands g o first, d.met) ↔
      (∀ v ∈ r.operands, g.values.contains v = true ∨
        v ∈ resultHandles first r.resultTypes.length) ∧
      (r.regions.Nodup ∧ ∀ x ∈ r.regions, g.regions.contains x = true ∧ g.holder? x = none) ∧
      (∀ b ∈ r.successors, g.blocks.contains b = true) ∧
      (∀ b, r.parent = some b → g.blocks.contains b = true ∧
        ∀ x ∈ r.regions, ¬ g.Encloses (.region x) (.block b)) ∧
      (∀ t ∈ r.traits, (r.traitDemand t).met) ∧
      ∀ v ∈ r.verifiers, OpVerifier.check v (g.requestView o first r) = .ok none := by
  simp only [demands, List.forall_mem_append, List.forall_mem_cons, List.forall_mem_map,
    List.not_mem_nil, false_imp_iff, implies_true, and_true, and_assoc, List.mem_eraseDups]

end Demands

namespace Graph

variable {g : Graph V} {n : NextHandles} {r : OpRequest V} {o : Op} {first : Nat}

/-- The rule about regions asks for free ones: a new operation holds nothing yet. -/
theorem foreignRegion_requestView_iff (hs : g.Sound n) (ho : n.op ≤ o.num) :
    (g.requestView o first r).foreignRegion [] r.regions = none ↔ r.regions.Nodup ∧
      ∀ x ∈ r.regions, g.regions.contains x = true ∧ g.holder? x = none := by
  rw [OpView.foreignRegion_eq_none_iff]
  refine and_congr_right fun _ => forall₂_congr fun x _ => ?_
  rw [and_iff_right List.not_mem_nil]
  refine and_congr_right fun _ => ?_
  have hnot := hs.owned.holder?_ne (hs.bounded.fresh_op ho) x
  change (∀ parent, g.holder? x = some parent → parent = o) ↔ g.holder? x = none
  cases hheld : g.holder? x with
  | none => simp
  | some parent =>
      rw [hheld] at hnot
      simpa using hnot

/-- The results of a request name the operation and their positions. -/
theorem foreignResult_requestView (r : OpRequest V) :
    (g.requestView o first r).foreignResult 0 (g.requestView o first r).data.results = none := by
  rw [OpView.foreignResult_eq_none_iff]
  intro i v hv
  obtain ⟨hi, rfl⟩ := getElem?_resultHandles.1 hv
  have hty : r.resultTypes[i]? = some r.resultTypes[i] := List.getElem?_eq_getElem hi
  rw [Nat.zero_add]
  exact origin?_eq (find?_putResults_self hty g o first)

variable [OpVerifier V]

/-- The rules of a request stand for its demands. -/
theorem Sound.stand_requestView (hs : g.Sound n) (ho : n.op ≤ o.num)
    (hverifiers : ∀ v ∈ r.verifiers, ∃ outcome,
      OpVerifier.check v (g.requestView o first r) = .ok outcome) :
    Rule.Stand (g.requestView o first r) (g.requestView o first r).rules
      (r.demands g o first) := by
  obtain ⟨complaint, hcomplaint, hparent⟩ := OpView.exists_badParent (g.requestView o first r)
    (hs.owned.putResults o first r.resultTypes) (hs.acyclic.putResults o first r.resultTypes)
  have htraits : r.traitDemand = fun t => ⟨t.ruleName, t.Met (g.requestView o first r).data⟩ :=
    funext (r.traitDemand_eq length_resultHandles)
  unfold OpRequest.demands
  rw [htraits]
  refine .append (.append (.demand rfl ?operands (.pass ?results (.demand rfl ?regions
    (.demand rfl ?successors (.demand hcomplaint ?parent .nil))))) (.map ?traits)) (.map ?verifiers)
  case operands =>
    rw [OpView.missingOperand_eq_none_iff]
    exact forall₂_congr fun v _ => contains_putResults g o first r.resultTypes v
  case results => exact congrArg Except.ok (foreignResult_requestView r)
  case regions => exact foreignRegion_requestView_iff hs ho
  case successors => exact (g.requestView o first r).missingSuccessor_eq_none_iff
  case parent =>
    rw [hparent]
    refine forall₂_congr fun b _ => and_congr_right fun _ => forall₂_congr fun x _ => not_congr ?_
    exact encloses_putResults_iff o first r.resultTypes (.region x) (.block b)
  case traits =>
    intro t _
    exact ⟨_, rfl, (g.requestView o first r).brokenTrait_eq_none_iff t⟩
  case verifiers =>
    intro v hv
    obtain ⟨outcome, hcheck⟩ := hverifiers v hv
    refine ⟨outcome, hcheck, ?_⟩
    rw [hcheck]
    exact ⟨congrArg Except.ok, Except.ok.inj⟩

/-- The rules of a request end if its extra verifiers do. -/
theorem Sound.exists_records (hs : g.Sound n) (ho : n.op ≤ o.num)
    (hverifiers : ∀ v ∈ r.verifiers, ∃ outcome,
      OpVerifier.check v (g.requestView o first r) = .ok outcome) :
    ∃ failures, (g.requestView o first r).failures = .ok failures ∧
      Records (r.demands g o first) failures :=
  (hs.stand_requestView ho hverifiers).exists_records

/-- The records of a request tell which of its demands are not met. -/
theorem Sound.records_of_failures (hs : g.Sound n) (ho : n.op ≤ o.num)
    {failures : List RuleFailure} (hfailures : (g.requestView o first r).failures = .ok failures) :
    Records (r.demands g o first) failures := by
  have hverifiers : ∀ v ∈ r.verifiers, ∃ outcome,
      OpVerifier.check v (g.requestView o first r) = .ok outcome := fun v hv =>
    Rule.exists_check_of_collect hfailures (OpVerifier.rule v)
      (List.mem_append_right _ (List.mem_map_of_mem hv))
  obtain ⟨_, hcollect, hrecords⟩ := hs.exists_records ho hverifiers
  cases hcollect.symm.trans hfailures
  exact hrecords

end Graph

end RegionIR
