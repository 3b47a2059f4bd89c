import RegionIR.Proofs.Edit.Demands
import RegionIR.Proofs.Edit.Placement

/-!
# Creation of operations

The rules that a request passes are all that a new operation has to bring
along: its operands and successors are in the graph, its regions are free,
its traits are met.  They are run on a graph that has the results already,
but not the operation, so a rule about the parent block is about the graph
before the regions are taken.

A request that fails loses its handles and nothing else.  The handles it names
need not be in the graph, as the rules look for each of them first; what may
still meet a fault is the code of a definition, its extra verifiers included.

## Main results

* `Graph.admits_of_demands` — an operation whose demands are met is admitted.
* `Graph.created`, `Store.leads_created` — the graph that a creation leaves.
* `ends_create`, `ends_createOf` — where a creation ends.
* `atomicFrom_create`, `atomicFrom_createOf`
* `faultless_create`, `faultless_createOf` — no fault but that of a definition.
-/

namespace RegionIR

variable {V : Type}

/-! ## What a request brings along -/

/-- The counters past the handles of a new operation and of its results. -/
def NextHandles.past (n : NextHandles) (results : Nat) : NextHandles :=
  { n with op := n.op + 1, value := n.value + results }

/-- The counters have handles left for an operation and its results. -/
structure NextHandles.RoomFor (n : NextHandles) (results : Nat) : Prop where
  op : n.Room .op 1
  value : n.Room .value results

instance (n : NextHandles) (results : Nat) : Decidable (n.RoomFor results) :=
  decidable_of_iff (n.Room .op 1 ∧ n.Room .value results)
    ⟨fun h => ⟨h.1, h.2⟩, fun h => ⟨h.op, h.value⟩⟩

theorem NextHandles.RoomFor.le_past {n : NextHandles} {results : Nat} (h : n.RoomFor results) :
    n ≤ n.past results := by
  have hvalue : (n.set (n.op + 1) .op).Room .value results := h.value
  exact le_trans (le_set h.op) (le_set hvalue)

theorem OpRequest.lawful_data {r : OpRequest V} {results : List Value}
    (hlength : results.length = r.resultTypes.length)
    (h : ∀ t ∈ r.traits, (r.traitDemand t).met) : (r.data results).Lawful where
  met := by
    intro t ht
    have hmet := h t (List.mem_eraseDups.1 (OpTrait.withoutRepeats_eq_eraseDups r.traits ▸ ht))
    rw [r.traitDemand_eq hlength, ← data_eq_entry] at hmet
    cases t <;> exact hmet
  table := by
    unfold OpRequest.data
    dsimp only
    split
    · rename_i hmem
      exact iff_of_true rfl hmem
    · rename_i hmem
      exact iff_of_false Bool.false_ne_true hmem

theorem OpRequest.table_data {r : OpRequest V} {results : List Value} {t : Table String Op}
    (h : (r.data results).symbols = some t) : t = .empty := by
  unfold OpRequest.data at h
  dsimp only at h
  split at h
  · exact (Option.some.inj h).symm
  · cases h

/-- The request that a definition makes, once the types of the results are known. -/
def OpDef.request (definition : OpDef V) (operands : List Value) (attrs : AttributeMap)
    (regions : List Region) (parent : Option Block) (types : List Ty) : OpRequest V where
  name := definition.name
  operands := operands
  attrs := attrs
  regions := regions
  parent := parent
  resultTypes := types
  traits := definition.traits
  verifiers := definition.verifiers

namespace Graph

variable {g : Graph V} {n n' : NextHandles} {r : OpRequest V} {o : Op} {first : Nat}

variable [OpVerifier V] in
/-- A request whose demands are met is admitted, under counters that have advanced past its
handles. -/
theorem admits_of_demands (ho : n.op ≤ o.num) (hlt : o.num < n'.op) (hfirst : n.value ≤ first)
    (hlast : first + r.resultTypes.length ≤ n'.value) (hmet : ∀ d ∈ r.demands g o first, d.met) :
    g.Admits n n' o first r.resultTypes (r.data (resultHandles first r.resultTypes.length)) := by
  obtain ⟨hoperands, ⟨hnodup, hregions⟩, hsuccessors, -, htraits, -⟩ :=
    OpRequest.forall_demands_iff.1 hmet
  have hresult : ∀ v ∈ resultHandles first r.resultTypes.length,
      n.value ≤ v.num ∧ v.num < n'.value := by
    intro v hv
    obtain ⟨i, hi, rfl⟩ := mem_resultHandles.1 hv
    exact ⟨Nat.le_trans hfirst (Nat.le_add_right first i), by dsimp only; omega⟩
  constructor
  case op_ge => exact ho
  case op_lt => exact hlt
  case results => rfl
  case results_ge => exact fun v hv => (hresult v hv).1
  case results_lt => exact fun v hv => (hresult v hv).2
  case operands => exact fun v hv => (contains_putResults g o first _ v).2 (hoperands v hv)
  case regions => exact hregions
  case regions_nodup => exact hnodup
  case successors => exact hsuccessors
  case parent => rfl
  case lawful => exact OpRequest.lawful_data length_resultHandles htraits
  case table => exact fun t ht => OpRequest.table_data ht

/-- A new operation is around the blocks that its regions are around. -/
theorem block_within_linkOp_iff (hs : g.Sound n) (ho : n.op ≤ o.num) {types : List Ty}
    {d : OpData V} {b : Block} :
    ((g.putResults o first types).linkOp o d).Within (.block b) (.op o) ↔
      ∃ x ∈ d.regions, g.Encloses (.region x) (.block b) := by
  have hfresh := hs.bounded.fresh_op ho
  have hfree := (hs.owned.putResults o first types).not_mem_opsIn (parent?_eq_none hfresh)
  rw [block_within_op_iff, regionsOf_linkOp, if_pos rfl]
  refine exists_congr fun x => and_congr_right fun _ =>
    Iff.trans ?_ (encloses_putResults_iff o first types (.region x) (.block b))
  constructor
  · intro hin
    refine (hin.of_new_root (fun _ _ hxy => hxy.of_linkOp) (not_holds_linkOp hfree d)).resolve_right
      fun heq => ?_
    cases heq
  · exact fun hin => Relation.TransGen.mono (fun _ _ hxy => hxy.linkOp hfresh d) _ _ hin

/-- The graph with the operation of a request, which is the last one of its parent. -/
def created (g : Graph V) (o : Op) (first : Nat) (r : OpRequest V) : Graph V :=
  let made := (g.putResults o first r.resultTypes).linkOp o
    (r.data (resultHandles first r.resultTypes.length))
  match r.parent with
  | none => made
  | some b => made.placeOp b (made.opsIn b).length o

theorem contains_created (g : Graph V) (o : Op) (first : Nat) (r : OpRequest V) :
    (g.created o first r).ops.contains o = true := by
  have hmade : ((g.putResults o first r.resultTypes).linkOp o
      (r.data (resultHandles first r.resultTypes.length))).ops.contains o = true :=
    Table.contains_insert.2 (Or.inl rfl)
  unfold created
  cases r.parent with
  | none => exact hmade
  | some b => exact (live_placeOp (x := .op o) b _ o).2 hmade

theorem resultsOf_created (g : Graph V) (o : Op) (first : Nat) (r : OpRequest V) :
    (g.created o first r).resultsOf o = resultHandles first r.resultTypes.length := by
  have hmade : ((g.putResults o first r.resultTypes).linkOp o
      (r.data (resultHandles first r.resultTypes.length))).resultsOf o =
        resultHandles first r.resultTypes.length := by
    rw [resultsOf_linkOp, if_pos rfl]
    rfl
  unfold created
  cases r.parent with
  | none => exact hmade
  | some b => exact (resultsOf_placeOp _ b _ o _).trans hmade

end Graph

variable [OpVerifier V] in
/-- A request whose demands are met is met by changes. -/
theorem Store.leads_created {s : Store V} (hs : s.Sound) {r : OpRequest V}
    (hroom : s.next.RoomFor r.resultTypes.length)
    (hmet : ∀ d ∈ r.demands s.graph ⟨s.next.op⟩ s.next.value, d.met) :
    s.Leads ⟨s.graph.created ⟨s.next.op⟩ s.next.value r, s.next.past r.resultTypes.length⟩ := by
  have hadmits : s.graph.Admits s.next (s.next.past r.resultTypes.length) ⟨s.next.op⟩ s.next.value
      r.resultTypes (r.data (resultHandles s.next.value r.resultTypes.length)) :=
    Graph.admits_of_demands (Nat.le_refl s.next.op) (Nat.lt_succ_self s.next.op)
      (Nat.le_refl s.next.value) (Nat.le_refl _) hmet
  have hmade := Store.Leads.grow (.refl s) hroom.le_past (.create hadmits)
  unfold Graph.created
  cases hparent : r.parent with
  | none => exact hmade
  | some b =>
      obtain ⟨-, -, -, hparents, -⟩ := OpRequest.forall_demands_iff.1 hmet
      obtain ⟨hb, hapart⟩ := hparents b hparent
      refine hmade.change (.placeOp _ hb (Table.contains_insert.2 (Or.inl rfl)) ?_ ?_)
      · rw [Graph.parent?_linkOp, if_pos rfl]
        rfl
      · rw [Graph.block_within_linkOp_iff hs hadmits.op_ge]
        exact fun ⟨x, hx, hin⟩ => hapart x hx hin

namespace Edit

open RegionIR.Action

variable {s : Store V}

/-! ## The steps of a creation -/

section Steps

variable {refused : EditError → Store V → Prop}

private theorem ends_collect_results {o : Op} {first k : Nat} {types : List Ty} {g : Graph V}
    {n : NextHandles} {done : List Value → Store V → Prop} (hfirst : n.value = first + k)
    (h : n.Room .value types.length → done ((types.zipIdx k).map fun ty => ⟨first + ty.2⟩)
      ⟨{ g with values := (types.zipIdx k).foldl (fun values ty =>
        values.insert ⟨first + ty.2⟩ { ty := ty.1, origin := .result o ty.2 }) g.values },
        { n with value := n.value + types.length }⟩) :
    ((collect (types.zipIdx k) fun ty => do
        let v ← freshValue
        putValue v { ty := ty.1, origin := .result o ty.2 }
        return v : Edit V (List Value)).run ⟨g, n⟩).Ends done refused := by
  induction types generalizing k g n done with
  | nil => exact h (n.room_zero _)
  | cons ty rest ih =>
      have hnext : n.value + 1 = first + (k + 1) := by omega
      have hcount : n.value + (ty :: rest).length = n.value + 1 + rest.length := by
        rw [List.length_cons]
        omega
      rw [List.zipIdx_cons, List.map_cons, List.foldl_cons, ← hfirst, hcount] at h
      rw [List.zipIdx_cons, collect_cons, ends_bind, ends_bind, ends_freshValue]
      intro hfirst
      rw [ends_bind, ends_putValue, ends_pure, ends_bind]
      exact ih hnext fun hrest => h (NextHandles.room_succ_iff.2 ⟨hfirst, hrest⟩)

/-- The results get the next handles, one after the other. -/
theorem ends_newResults {o : Op} {types : List Ty} {g : Graph V} {n : NextHandles}
    {done : List Value → Store V → Prop}
    (h : n.Room .value types.length → done (resultHandles n.value types.length)
      ⟨g.putResults o n.value types, { n with value := n.value + types.length }⟩) :
    ((newResults o types).run ⟨g, n⟩).Ends done refused := by
  have hhandles : ((types.zipIdx 0).map fun ty => (⟨n.value + ty.2⟩ : Value)) =
      resultHandles n.value types.length := by
    rw [resultHandles, List.range_eq_range', ← List.zipIdx_map_snd 0 types, List.map_map]
    rfl
  rw [← hhandles] at h
  exact ends_collect_results rfl h

theorem ends_forEach_dropValue {l : List Value} {done : Unit → Store V → Prop}
    (h : done () ⟨{ s.graph with values := l.foldl (fun t v => t.erase v) s.graph.values },
      s.next⟩) : ((forEach l dropValue : Edit V Unit).run s).Ends done refused := by
  induction l generalizing s with
  | nil => exact h
  | cons v rest ih =>
      rw [forEach_cons, ends_bind, ends_dropValue]
      exact ih h

theorem ends_forEach_hold {o : Op} {l : List Region} {done : Unit → Store V → Prop}
    (h : done () ⟨{ s.graph with
      regions := l.foldl (fun t r => t.modify r fun e => { e with parent := some o })
        s.graph.regions }, s.next⟩) :
    ((forEach l fun r => updateRegion r fun e => { e with parent := some o } :
      Edit V Unit).run s).Ends done refused := by
  induction l generalizing s with
  | nil => exact h
  | cons r rest ih =>
      rw [forEach_cons, ends_bind, ends_updateRegion]
      exact fun _ => ih h

theorem ends_link {o : Op} {d : OpData V} {done : Unit → Store V → Prop}
    (h : done () ⟨s.graph.linkOp o d, s.next⟩) : ((link o d).run s).Ends done refused := by
  rw [link, ends_bind]
  apply ends_forEach_updateValue
  rw [ends_bind]
  apply ends_forEach_hold
  exact h

/-- Results can be made if there are handles for all of them. -/
theorem faultless_newResults {o : Op} {types : List Ty} (h : s.next.Room .value types.length) :
    ((newResults o types : Edit V (List Value)).run s).Faultless := by
  rw [newResults]
  generalize 0 = k
  induction types generalizing s k with
  | nil => trivial
  | cons ty rest ih =>
      obtain ⟨hfirst, hrest⟩ := NextHandles.room_succ_iff.1 h
      rw [List.zipIdx_cons, collect_cons, faultless_bind, faultless_bind, faultless_freshValue,
        ends_freshValue, ends_bind, ends_freshValue]
      refine ⟨⟨hfirst, fun _ => trivial⟩, fun _ => ?_⟩
      rw [ends_bind, ends_putValue, ends_pure, faultless_bind_pure]
      exact ih hrest (k + 1)

theorem faultless_link {o : Op} {d : OpData V}
    (hoperands : ∀ v ∈ d.operands, s.graph.values.contains v = true)
    (hregions : ∀ r ∈ d.regions, s.graph.regions.contains r = true) :
    ((link o d).run s).Faultless := by
  rw [link, faultless_bind]
  refine ⟨faultless_forEach_updateValue fun x hx => ?_, ends_forEach_updateValue ?_⟩
  · exact hoperands x.1 (List.fst_mem_of_mem_zipIdx hx)
  · rw [faultless_bind]
    refine ⟨?_, (Outcome.ends_true _).2 trivial⟩
    refine faultless_forEach_of_invariant
      (I := fun s' => ∀ r ∈ d.regions, s'.graph.regions.contains r = true)
      (fun r hr s' hs' => ?_) hregions
    rw [faultless_updateRegion, ends_updateRegion]
    exact ⟨hs' r hr, fun _ r' hr' => (Table.contains_modify _ r r' _).trans (hs' r' hr')⟩

end Steps

/-! ## Creation -/

variable [OpVerifier V]

/-- A request whose demands are met is met.  One that fails loses its handles, its results are
dropped again, and all failures are reported. -/
theorem ends_create (hs : s.Sound) {r : OpRequest V} {done : Op → Store V → Prop}
    {refused : EditError → Store V → Prop}
    (hdone : s.next.RoomFor r.resultTypes.length →
      (∀ d ∈ r.demands s.graph ⟨s.next.op⟩ s.next.value, d.met) → done ⟨s.next.op⟩
        ⟨s.graph.created ⟨s.next.op⟩ s.next.value r, s.next.past r.resultTypes.length⟩)
    (hrefused : s.next.RoomFor r.resultTypes.length → ∀ e : ValidationError,
      (s.graph.requestView ⟨s.next.op⟩ s.next.value r).failures = .ok e.failures →
        refused (.invalid e) ⟨s.graph, s.next.past r.resultTypes.length⟩) :
    ((create r).run s).Ends done refused := by
  obtain ⟨g, n⟩ := s
  have hfresh : ∀ v ∈ resultHandles n.value r.resultTypes.length, g.values.find? v = none := by
    intro v hv
    obtain ⟨i, -, rfl⟩ := mem_resultHandles.1 hv
    exact hs.bounded.fresh_value (Nat.le_add_right n.value i)
  rw [create, ends_bind, ends_freshOp]
  intro hop
  rw [ends_bind]
  apply ends_newResults
  intro hvalue
  have hroom : n.RoomFor r.resultTypes.length := ⟨hop, hvalue⟩
  rw [ends_bind, ends_ask]
  intro failures hfailures
  rw [OpRequest.data_eq_entry] at hfailures
  dsimp only at hfailures ⊢
  cases hcase : ValidationError.ofFailures failures with
  | some e =>
      rw [ValidationError.ofFailures_eq_some_iff] at hcase
      subst hcase
      dsimp only
      rw [ends_bind]
      apply ends_forEach_dropValue
      dsimp only
      rw [Graph.foldl_erase_putResults hfresh]
      exact hrefused hroom e hfailures
  | none =>
      rw [ValidationError.ofFailures_eq_none_iff] at hcase
      subst hcase
      have hrecords := hs.records_of_failures (Nat.le_refl n.op) hfailures
      have hmade := hdone hroom (hrecords.eq_nil_iff.1 rfl)
      unfold Graph.created at hmade
      dsimp only
      rw [ends_bind]
      apply ends_link
      cases hparent : r.parent with
      | none =>
          rw [hparent] at hmade
          exact hmade
      | some b =>
          rw [hparent] at hmade
          dsimp only
          rw [ends_bind]
          exact ends_attachOp fun _ _ => hmade

theorem atomicFrom_create (hs : s.Sound) (r : OpRequest V) : AtomicFrom (create r) s :=
  ends_create hs (fun hroom => Store.leads_created hs hroom) fun hroom _ _ => ⟨rfl, hroom.le_past⟩

/-- The definition says how many results there are. -/
theorem ends_createOf (hs : s.Sound) {definition : OpDef V} {operands : List Value}
    {attrs : AttributeMap} {regions : List Region} {parent : Option Block}
    {done : Op → Store V → Prop} {refused : EditError → Store V → Prop}
    (hdone : ∀ results g', s.next.RoomFor results → s.Leads ⟨g', s.next.past results⟩ →
      g'.ops.contains ⟨s.next.op⟩ = true →
      g'.resultsOf ⟨s.next.op⟩ = resultHandles s.next.value results →
        done ⟨s.next.op⟩ ⟨g', s.next.past results⟩)
    (hrefused : ∀ e s', s.Untouched s' → refused e s') :
    ((createOf definition operands attrs regions parent).run s).Ends done refused := by
  rw [createOf, ends_bind, ends_graph]
  cases operands.find? fun v => !s.graph.values.contains v with
  | some v => exact hrefused _ s (.refl s)
  | none =>
      dsimp only
      rw [ends_bind, ends_ask]
      intro types _
      refine ends_create hs (fun hroom hmet => ?_) fun hroom _ _ =>
        hrefused _ _ ⟨rfl, hroom.le_past⟩
      exact hdone types.length _ hroom (Store.leads_created hs hroom hmet)
        (Graph.contains_created _ _ _ _) (Graph.resultsOf_created _ _ _ _)

theorem atomicFrom_createOf (hs : s.Sound) (definition : OpDef V) (operands : List Value)
    (attrs : AttributeMap) (regions : List Region) (parent : Option Block) :
    AtomicFrom (createOf definition operands attrs regions parent) s :=
  ends_createOf hs (fun _ _ _ hmade _ _ => hmade) fun _ _ hs' => hs'

/-- A request that there are handles for meets no fault unless an extra verifier does.  All that
the steps after the rules look up, the rules have found. -/
theorem faultless_create (hs : s.Sound) {r : OpRequest V}
    (hroom : s.next.RoomFor r.resultTypes.length)
    (hverifiers : ∀ v ∈ r.verifiers, ∃ outcome,
      OpVerifier.check v (s.graph.requestView ⟨s.next.op⟩ s.next.value r) = .ok outcome) :
    ((create r).run s).Faultless := by
  obtain ⟨g, n⟩ := s
  obtain ⟨failures, hfailures, hrecords⟩ := hs.exists_records (Nat.le_refl n.op) hverifiers
  rw [create, faultless_bind, faultless_freshOp, ends_freshOp]
  refine ⟨hroom.op, fun _ => ?_⟩
  rw [faultless_bind]
  refine ⟨faultless_newResults hroom.value, ends_newResults fun _ => ?_⟩
  rw [Graph.requestView, ← OpRequest.data_eq_entry] at hfailures
  rw [faultless_ask_bind hfailures]
  cases hcase : ValidationError.ofFailures failures with
  | some e =>
      dsimp only
      rw [faultless_bind]
      refine ⟨faultless_forEach_of_invariant (I := fun _ => True) (fun v _ s' _ => ?_) trivial,
        (Outcome.ends_true _).2 trivial⟩
      exact ⟨trivial, (Outcome.ends_true _).2 trivial⟩
  | none =>
      rw [ValidationError.ofFailures_eq_none_iff] at hcase
      subst hcase
      have hmet := hrecords.eq_nil_iff.1 rfl
      obtain ⟨-, -, -, hparents, -⟩ := OpRequest.forall_demands_iff.1 hmet
      have hadmits : g.Admits n (n.past r.resultTypes.length) ⟨n.op⟩ n.value r.resultTypes
          (r.data (resultHandles n.value r.resultTypes.length)) :=
        Graph.admits_of_demands (Nat.le_refl n.op) (Nat.lt_succ_self n.op) (Nat.le_refl n.value)
          (Nat.le_refl _) hmet
      dsimp only
      rw [faultless_bind]
      refine ⟨faultless_link hadmits.operands fun r' hr' => (hadmits.regions r' hr').1,
        ends_link ?_⟩
      cases hparent : r.parent with
      | none => trivial
      | some b =>
          have hlive := (hparents b hparent).1
          have hfresh := hs.bounded.fresh_op hadmits.op_ge
          have hnot := hs.owned.not_mem_opsIn (Graph.parent?_eq_none hfresh) b
          dsimp only
          rw [faultless_bind_pure]
          refine faultless_attachOp ?_ ?_ ?_ none
          · exact hlive
          · exact Table.contains_insert.2 (Or.inl rfl)
          · exact hnot

/-- A request is met just where there are handles for it and its demands are met. -/
theorem run_create_eq_done_iff (hs : s.Sound) {r : OpRequest V} {o : Op} {s' : Store V} :
    (create r).run s = .done o s' ↔ s.next.RoomFor r.resultTypes.length ∧
      (∀ d ∈ r.demands s.graph ⟨s.next.op⟩ s.next.value, d.met) ∧ o = ⟨s.next.op⟩ ∧
        s' = ⟨s.graph.created ⟨s.next.op⟩ s.next.value r, s.next.past r.resultTypes.length⟩ := by
  constructor
  · intro hrun
    have hends : ((create r).run s).Ends
        (fun o s' => s.next.RoomFor r.resultTypes.length ∧
          (∀ d ∈ r.demands s.graph ⟨s.next.op⟩ s.next.value, d.met) ∧ o = ⟨s.next.op⟩ ∧
          s' = ⟨s.graph.created ⟨s.next.op⟩ s.next.value r, s.next.past r.resultTypes.length⟩)
        fun _ _ => True :=
      ends_create hs (fun hroom hmet => ⟨hroom, hmet, rfl, rfl⟩) fun _ _ _ => trivial
    rwa [hrun] at hends
  · rintro ⟨hroom, hmet, rfl, rfl⟩
    obtain ⟨-, -, -, -, -, hverifiers⟩ := OpRequest.forall_demands_iff.1 hmet
    refine (faultless_create hs hroom fun v hv => ⟨none, hverifiers v hv⟩).of_ends
      (P := (· = .done _ _)) (ends_create hs (fun _ _ => rfl) fun _ error hfailures => ?_)
    have hrecords := hs.records_of_failures (Nat.le_refl s.next.op) hfailures
    exact absurd (hrecords.eq_nil_iff.2 hmet) error.nonempty

/-- A definition is asked for the types of the results only if all operands are there. -/
theorem faultless_createOf (hs : s.Sound) {definition : OpDef V} {operands : List Value}
    {attrs : AttributeMap} {regions : List Region} {parent : Option Block}
    (hdefinition : (∀ v ∈ operands, s.graph.values.contains v = true) →
      ∃ types, definition.resultTypes s.graph operands attrs = .ok types ∧
        s.next.RoomFor types.length ∧ ∀ v ∈ definition.verifiers, ∃ outcome,
          OpVerifier.check v (s.graph.requestView ⟨s.next.op⟩ s.next.value
            (definition.request operands attrs regions parent types)) = .ok outcome) :
    ((createOf definition operands attrs regions parent).run s).Faultless := by
  rw [createOf, faultless_bind, ends_graph]
  refine ⟨trivial, ?_⟩
  cases hfind : operands.find? fun v => !s.graph.values.contains v with
  | some v => trivial
  | none =>
      have hlive : ∀ v ∈ operands, s.graph.values.contains v = true := by
        simpa using List.find?_eq_none.1 hfind
      obtain ⟨types, htypes, hroom, hverifiers⟩ := hdefinition hlive
      dsimp only
      rw [faultless_ask_bind htypes]
      exact faultless_create hs hroom hverifiers

end Edit

end RegionIR
