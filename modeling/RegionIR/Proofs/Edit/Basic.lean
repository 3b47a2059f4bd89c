import RegionIR.Proofs.Action.Faultless
import RegionIR.Proofs.Graph.Release
import RegionIR.Proofs.Invariants.Sound

/-!
# The steps that edits are made of

Each step has an equation for where it ends, so that the end of an edit is
computed from its text.  The aim is always the same: wherever an edit ends,
done or refused, a series of changes leads there (`StepsFrom`).  Most edits
keep a stronger promise: a refusal leaves the graph as it was (`AtomicFrom`),
or there is no refusal at all (`GrantedFrom`).

Whether a step meets a fault has an equation as well: a query has to be
answered, and an entry that is changed has to be there.

## Main results

* `ends_ask`, `ends_updateOp`, `ends_freshValue`, … — the equations.
* `faultless_ask`, `faultless_updateOp`, … — what a step needs to meet no fault.
* `AtomicFrom.stepsFrom`, `GrantedFrom.atomicFrom` — the promises in order.
* `AtomicFrom.bind`, `GrantedFrom.bind` — two edits in a row.
-/

namespace RegionIR

variable {V : Type}

namespace Store

theorem Leads.refl (s : Store V) : s.Leads s := Relation.ReflTransGen.refl

theorem Leads.trans {s s' s'' : Store V} (h : s.Leads s') (h' : s'.Leads s'') : s.Leads s'' :=
  Relation.ReflTransGen.trans h h'

theorem Leads.advance {s : Store V} {g : Graph V} {n n' : NextHandles} (h : s.Leads ⟨g, n⟩)
    (hle : n ≤ n') : s.Leads ⟨g, n'⟩ :=
  h.tail (.advance hle)

/-- A change that brings new handles. -/
theorem Leads.grow {s : Store V} {g g' : Graph V} {n n' : NextHandles} (h : s.Leads ⟨g, n⟩)
    (hle : n ≤ n') (hc : Graph.Change n n' g g') : s.Leads ⟨g', n'⟩ :=
  h.tail (.change hle hc)

theorem Leads.change {s : Store V} {g g' : Graph V} {n : NextHandles} (h : s.Leads ⟨g, n⟩)
    (hc : Graph.Change n n g g') : s.Leads ⟨g', n⟩ :=
  h.grow n.le_refl hc

/-- Counters never go back. -/
theorem Leads.next_le {s s' : Store V} (h : s.Leads s') : s.next ≤ s'.next := by
  induction h with
  | refl => exact s.next.le_refl
  | tail _ hstep ih =>
      cases hstep with
      | advance hle => exact NextHandles.le_trans ih hle
      | change hle _ => exact NextHandles.le_trans ih hle

/-- What is in a graph after a series of changes was there before, or has a new handle. -/
theorem Leads.live_cases {s s' : Store V} (h : s.Leads s') {x : Entity} (hx : s'.graph.Live x) :
    s.graph.Live x ∨ ¬ x.Below s.next := by
  induction h with
  | refl => exact Or.inl hx
  | tail hleads hstep ih =>
      cases hstep with
      | advance _ => exact ih hx
      | change _ hc =>
          rcases hc.live_cases hx with hold | hnew
          · exact ih hold
          · exact Or.inr fun hbelow => hnew (hbelow.advance (Leads.next_le hleads))

/-- The graph is as before, and at most counters have advanced. -/
structure Untouched (s s' : Store V) : Prop where
  graph : s'.graph = s.graph
  next : s.next ≤ s'.next

theorem Untouched.refl (s : Store V) : s.Untouched s := ⟨rfl, s.next.le_refl⟩

theorem Untouched.leads {s s' : Store V} (h : s.Untouched s') : s.Leads s' := by
  obtain ⟨g, n⟩ := s'
  obtain ⟨rfl, hle⟩ := h
  exact (Leads.refl s).advance hle

end Store

namespace Edit

open RegionIR.Action

variable {α β : Type} {s : Store V} {done : α → Store V → Prop}
  {refused : EditError → Store V → Prop}

/-! ## Queries -/

theorem ends_graph {done : Graph V → Store V → Prop} :
    ((graph : Edit V (Graph V)).run s).Ends done refused ↔ done s.graph s := Iff.rfl

theorem ends_ask (f : Graph V → Except Fault α) :
    ((ask f).run s).Ends done refused ↔ ∀ x, f s.graph = .ok x → done x s :=
  ends_read fun s : Store V => f s.graph

/-! ## New handles -/

/-- A counter that has a handle left gives it, and goes on by one. -/
theorem run_fresh_of_room {k : EntityKind} (h : s.next.Room k 1) :
    (fresh k : Edit V (Handle k)).run s =
      .done ⟨s.next.of k⟩ ⟨s.graph, s.next.set (s.next.of k + 1) k⟩ := by
  have hsucc : Checked.succ (s.next.of k) = .ok (s.next.of k + 1) :=
    if_pos (NextHandles.room_one_iff.1 h)
  rw [fresh, run_bind_of_done _ (run_get s), hsucc]
  rfl

/-- A counter at its end gives nothing. -/
theorem run_fresh_of_no_room {k : EntityKind} (h : ¬ s.next.Room k 1) :
    (fresh k : Edit V (Handle k)).run s = .fault (.overflow .add) := by
  have hsucc : Checked.succ (s.next.of k) = .error (.overflow .add) :=
    if_neg fun hlt => h (NextHandles.room_one_iff.2 hlt)
  rw [fresh, run_bind_of_done _ (run_get s), hsucc]
  rfl

theorem run_fresh_bind_of_no_room {k : EntityKind} (h : ¬ s.next.Room k 1)
    (f : Handle k → Edit V α) : (fresh k >>= f).run s = .fault (.overflow .add) :=
  run_bind_of_fault f (run_fresh_of_no_room h)

theorem ends_fresh {k : EntityKind} {done : Handle k → Store V → Prop} :
    ((fresh k : Edit V (Handle k)).run s).Ends done refused ↔ (s.next.Room k 1 →
      done ⟨s.next.of k⟩ ⟨s.graph, s.next.set (s.next.of k + 1) k⟩) := by
  by_cases h : s.next.Room k 1
  · rw [run_fresh_of_room h]
    exact ⟨fun hdone _ => hdone, fun hdone => hdone h⟩
  · rw [run_fresh_of_no_room h]
    exact iff_of_true trivial fun hroom => absurd hroom h

theorem ends_freshValue {done : Value → Store V → Prop} :
    ((freshValue : Edit V Value).run s).Ends done refused ↔ (s.next.Room .value 1 →
      done ⟨s.next.value⟩ ⟨s.graph, { s.next with value := s.next.value + 1 }⟩) := ends_fresh

theorem ends_freshOp {done : Op → Store V → Prop} :
    ((freshOp : Edit V Op).run s).Ends done refused ↔ (s.next.Room .op 1 →
      done ⟨s.next.op⟩ ⟨s.graph, { s.next with op := s.next.op + 1 }⟩) := ends_fresh

theorem ends_freshBlock {done : Block → Store V → Prop} :
    ((freshBlock : Edit V Block).run s).Ends done refused ↔ (s.next.Room .block 1 →
      done ⟨s.next.block⟩ ⟨s.graph, { s.next with block := s.next.block + 1 }⟩) := ends_fresh

theorem ends_freshRegion {done : Region → Store V → Prop} :
    ((freshRegion : Edit V Region).run s).Ends done refused ↔ (s.next.Room .region 1 →
      done ⟨s.next.region⟩ ⟨s.graph, { s.next with region := s.next.region + 1 }⟩) := ends_fresh

/-! ## Entries -/

section Entries

variable {done : Unit → Store V → Prop}

theorem ends_modifyGraph (f : Graph V → Graph V) :
    ((modifyGraph f).run s).Ends done refused ↔ done () ⟨f s.graph, s.next⟩ := Iff.rfl

theorem ends_putValue (v : Value) (d : ValueData) :
    ((putValue v d).run s).Ends done refused ↔
      done () ⟨{ s.graph with values := s.graph.values.insert v d }, s.next⟩ := Iff.rfl

theorem ends_putOp (o : Op) (d : OpData V) :
    ((putOp o d).run s).Ends done refused ↔
      done () ⟨{ s.graph with ops := s.graph.ops.insert o d }, s.next⟩ := Iff.rfl

theorem ends_putBlock (b : Block) (d : BlockData) :
    ((putBlock b d).run s).Ends done refused ↔
      done () ⟨{ s.graph with blocks := s.graph.blocks.insert b d }, s.next⟩ := Iff.rfl

theorem ends_putRegion (r : Region) (d : RegionData) :
    ((putRegion r d).run s).Ends done refused ↔
      done () ⟨{ s.graph with regions := s.graph.regions.insert r d }, s.next⟩ := Iff.rfl

theorem ends_dropValue (v : Value) :
    ((dropValue v).run s).Ends done refused ↔
      done () ⟨{ s.graph with values := s.graph.values.erase v }, s.next⟩ := Iff.rfl

theorem ends_dropRegion (r : Region) :
    ((dropRegion r).run s).Ends done refused ↔ done () ⟨s.graph.dropRegion r, s.next⟩ := Iff.rfl

/-- An entry that has to be there is read, changed and written back. -/
private theorem ends_rewrite {k : EntityKind} {β : Type} {t : Graph V → Table (Handle k) β}
    {x : Handle k} {put : β → Edit V Unit} {f : β → β} {g' : Graph V}
    (hput : ∀ d, (t s.graph).find? x = some d →
      (((put (f d)).run s).Ends done refused ↔ done () ⟨g', s.next⟩)) :
    (((do let d ← ask fun g => (t g).demand x; put (f d)) : Edit V Unit).run s).Ends done refused ↔
      ((t s.graph).contains x = true → done () ⟨g', s.next⟩) := by
  rw [ends_bind, ends_ask, Table.contains_iff]
  constructor
  · rintro h ⟨d, hd⟩
    exact (hput d hd).1 (h d (Table.demand_eq_ok_iff.2 hd))
  · intro h d hd
    have hfind := Table.demand_eq_ok_iff.1 hd
    exact (hput d hfind).2 (h ⟨d, hfind⟩)

theorem ends_updateValue (v : Value) (f : ValueData → ValueData) :
    ((updateValue v f).run s).Ends done refused ↔
      (s.graph.values.contains v = true → done () ⟨s.graph.modifyValue v f, s.next⟩) := by
  refine ends_rewrite fun d hd => ?_
  rw [ends_putValue, Table.insert_eq_modify hd, Graph.modifyValue]

theorem ends_updateOp (o : Op) (f : OpData V → OpData V) :
    ((updateOp o f).run s).Ends done refused ↔
      (s.graph.ops.contains o = true → done () ⟨s.graph.modifyOp o f, s.next⟩) := by
  refine ends_rewrite fun d hd => ?_
  rw [ends_putOp, Table.insert_eq_modify hd, Graph.modifyOp]

theorem ends_updateBlock (b : Block) (f : BlockData → BlockData) :
    ((updateBlock b f).run s).Ends done refused ↔
      (s.graph.blocks.contains b = true → done () ⟨s.graph.modifyBlock b f, s.next⟩) := by
  refine ends_rewrite fun d hd => ?_
  rw [ends_putBlock, Table.insert_eq_modify hd, Graph.modifyBlock]

theorem ends_updateRegion (r : Region) (f : RegionData → RegionData) :
    ((updateRegion r f).run s).Ends done refused ↔
      (s.graph.regions.contains r = true → done () ⟨s.graph.modifyRegion r f, s.next⟩) := by
  refine ends_rewrite fun d hd => ?_
  rw [ends_putRegion, Table.insert_eq_modify hd, Graph.modifyRegion]

/-- A loop of changes of values is a fold over their table. -/
theorem ends_forEach_updateValue {l : List β} {key : β → Value}
    {f : β → ValueData → ValueData} (h : done () ⟨s.graph.modifyValues l key f, s.next⟩) :
    ((Action.forEach l fun x => updateValue (key x) (f x) : Edit V Unit).run s).Ends
      done refused := by
  let update (s : Store V) (x : β) : Store V := ⟨s.graph.modifyValue (key x) (f x), s.next⟩
  have hfold : ∀ s : Store V, l.foldl update s = ⟨s.graph.modifyValues l key f, s.next⟩ := by
    clear h
    induction l with
    | nil => exact fun _ => rfl
    | cons x rest ih => exact fun s => ih (update s x)
  have hround : ∀ (x : β) (s : Store V), ((updateValue (key x) (f x)).run s).Ends
      (fun _ s' => s' = update s x) fun _ _ => False := by
    intro x s
    rw [ends_updateValue]
    exact fun _ => rfl
  refine (ends_forEach_of_update hround).mono (fun _ s' hs' => ?_) fun _ _ hfalse => hfalse.elim
  rw [hs', hfold]
  exact h

end Entries

/-! ## Steps that meet no fault -/

section Faultless

@[simp] theorem faultless_graph :
    ((graph : Edit V (Graph V)).run s).Faultless ↔ True := Iff.rfl

theorem faultless_fresh (k : EntityKind) :
    ((fresh k : Edit V (Handle k)).run s).Faultless ↔ s.next.Room k 1 := by
  by_cases h : s.next.Room k 1
  · rw [run_fresh_of_room h]
    exact iff_of_true trivial h
  · rw [run_fresh_of_no_room h]
    exact iff_of_false id h

theorem faultless_freshValue :
    ((freshValue : Edit V Value).run s).Faultless ↔ s.next.Room .value 1 := faultless_fresh _

theorem faultless_freshOp :
    ((freshOp : Edit V Op).run s).Faultless ↔ s.next.Room .op 1 := faultless_fresh _

theorem faultless_freshBlock :
    ((freshBlock : Edit V Block).run s).Faultless ↔ s.next.Room .block 1 := faultless_fresh _

theorem faultless_freshRegion :
    ((freshRegion : Edit V Region).run s).Faultless ↔ s.next.Room .region 1 := faultless_fresh _

@[simp] theorem faultless_modifyGraph (f : Graph V → Graph V) :
    ((modifyGraph f).run s).Faultless ↔ True := Iff.rfl

@[simp] theorem faultless_putValue (v : Value) (d : ValueData) :
    ((putValue v d : Edit V Unit).run s).Faultless ↔ True := Iff.rfl

@[simp] theorem faultless_putOp (o : Op) (d : OpData V) :
    ((putOp o d).run s).Faultless ↔ True := Iff.rfl

@[simp] theorem faultless_putBlock (b : Block) (d : BlockData) :
    ((putBlock b d : Edit V Unit).run s).Faultless ↔ True := Iff.rfl

@[simp] theorem faultless_putRegion (r : Region) (d : RegionData) :
    ((putRegion r d : Edit V Unit).run s).Faultless ↔ True := Iff.rfl

@[simp] theorem faultless_dropValue (v : Value) :
    ((dropValue v : Edit V Unit).run s).Faultless ↔ True := Iff.rfl

@[simp] theorem faultless_dropRegion (r : Region) :
    ((dropRegion r : Edit V Unit).run s).Faultless ↔ True := Iff.rfl

theorem faultless_ask (f : Graph V → Except Fault α) :
    ((ask f).run s).Faultless ↔ ∃ x, f s.graph = .ok x :=
  faultless_read fun s : Store V => f s.graph

/-- Where a query has an answer, the rest goes on with it. -/
theorem run_ask_bind {f : Graph V → Except Fault β} {x : β} (hx : f s.graph = .ok x)
    (k : β → Edit V α) : (ask f >>= k).run s = (k x).run s :=
  run_bind_of_done k (run_read_of_ok hx)

theorem faultless_ask_bind {f : Graph V → Except Fault β} {x : β} (hx : f s.graph = .ok x)
    (k : β → Edit V α) : ((ask f >>= k).run s).Faultless ↔ ((k x).run s).Faultless := by
  rw [run_ask_bind hx]

/-- An entry can be changed if it is there. -/
private theorem faultless_rewrite {k : EntityKind} {β : Type}
    {t : Graph V → Table (Handle k) β} {x : Handle k} {put : β → Edit V Unit}
    (hput : ∀ d, ((put d).run s).Faultless) :
    (((do let d ← ask fun g => (t g).demand x; put d) : Edit V Unit).run s).Faultless ↔
      (t s.graph).contains x = true := by
  rw [faultless_bind, faultless_ask, ends_ask, Table.contains_iff]
  simp only [Table.demand_eq_ok_iff]
  exact ⟨fun h => h.1, fun h => ⟨h, fun d _ => hput d⟩⟩

theorem faultless_updateValue (v : Value) (f : ValueData → ValueData) :
    ((updateValue v f : Edit V Unit).run s).Faultless ↔ s.graph.values.contains v = true :=
  faultless_rewrite fun _ => trivial

theorem faultless_updateOp (o : Op) (f : OpData V → OpData V) :
    ((updateOp o f).run s).Faultless ↔ s.graph.ops.contains o = true :=
  faultless_rewrite fun _ => trivial

theorem faultless_updateBlock (b : Block) (f : BlockData → BlockData) :
    ((updateBlock b f : Edit V Unit).run s).Faultless ↔ s.graph.blocks.contains b = true :=
  faultless_rewrite fun _ => trivial

theorem faultless_updateRegion (r : Region) (f : RegionData → RegionData) :
    ((updateRegion r f : Edit V Unit).run s).Faultless ↔ s.graph.regions.contains r = true :=
  faultless_rewrite fun _ => trivial

/-- Changes of values neither add nor drop one, so a loop of them needs its values only once. -/
theorem faultless_forEach_updateValue {l : List β} {key : β → Value}
    {f : β → ValueData → ValueData} (h : ∀ x ∈ l, s.graph.values.contains (key x) = true) :
    ((Action.forEach l fun x => updateValue (key x) (f x) : Edit V Unit).run s).Faultless := by
  refine faultless_forEach_of_invariant (I := fun s' =>
    ∀ x ∈ l, s'.graph.values.contains (key x) = true) (fun x hx s' hs' => ?_) h
  rw [faultless_updateValue, ends_updateValue]
  refine ⟨hs' x hx, fun _ y hy => ?_⟩
  exact (Table.contains_modify s'.graph.values (key x) (key y) (f x)).trans (hs' y hy)

end Faultless

/-! ## Edits as series of changes -/

/-- Wherever the edit ends, a series of changes leads there. -/
def StepsFrom (e : Edit V α) (s : Store V) : Prop :=
  (e.run s).Ends (fun _ s' => s.Leads s') fun _ s' => s.Leads s'

/-! ## Edits that are not refused -/

/-- The edit is not refused, and a series of changes leads to where it is done. -/
def GrantedFrom (e : Edit V α) (s : Store V) : Prop :=
  (e.run s).Ends (fun _ s' => s.Leads s') fun _ _ => False

theorem GrantedFrom.pure (x : α) (s : Store V) : GrantedFrom (Pure.pure x : Edit V α) s :=
  Store.Leads.refl s

theorem GrantedFrom.bind {a : Edit V β} {f : β → Edit V α} (ha : GrantedFrom a s)
    (hf : ∀ x s', s.Leads s' → GrantedFrom (f x) s') : GrantedFrom (a >>= f) s := by
  rw [GrantedFrom, ends_bind]
  refine ha.mono (fun x s' hs' => ?_) fun _ _ h => h
  exact (hf x s' hs').mono (fun _ _ h => hs'.trans h) fun _ _ h => h

/-- A loop is granted if each of its rounds is, in every sound store. -/
theorem GrantedFrom.forEach {l : List β} {f : β → Edit V Unit} (hs : s.Sound)
    (hround : ∀ x ∈ l, ∀ s' : Store V, s'.Sound → GrantedFrom (f x) s') :
    GrantedFrom (Action.forEach l f) s := by
  rw [GrantedFrom]
  refine ends_forEach_of_invariant (fun x hx s' hs' => ?_) (Store.Leads.refl s)
  exact (hround x hx s' (hs.leads hs')).mono (fun _ _ h => hs'.trans h) fun _ _ h => h

/-! ## Edits that leave no trace of a refusal -/

/-- A refusal leaves the graph as it was, and a series of changes leads to where the edit is
done. -/
def AtomicFrom (e : Edit V α) (s : Store V) : Prop :=
  (e.run s).Ends (fun _ s' => s.Leads s') fun _ s' => s.Untouched s'

theorem AtomicFrom.stepsFrom {e : Edit V α} (h : AtomicFrom e s) : StepsFrom e s :=
  h.mono (fun _ _ hs' => hs') fun _ _ hs' => hs'.leads

theorem GrantedFrom.atomicFrom {e : Edit V α} (h : GrantedFrom e s) : AtomicFrom e s :=
  h.mono (fun _ _ hs' => hs') fun _ _ hfalse => hfalse.elim

theorem AtomicFrom.refuse (e : EditError) (s : Store V) :
    AtomicFrom (Action.refuse e : Edit V α) s :=
  Store.Untouched.refl s

/-- Nothing has to be undone where only the first of two edits may be refused. -/
theorem AtomicFrom.bind {a : Edit V β} {f : β → Edit V α} (ha : AtomicFrom a s)
    (hf : ∀ x s', s.Leads s' → GrantedFrom (f x) s') : AtomicFrom (a >>= f) s := by
  rw [AtomicFrom, ends_bind]
  refine ha.mono (fun x s' hs' => ?_) fun _ _ h => h
  exact (hf x s' hs').mono (fun _ _ h => hs'.trans h) fun _ _ hfalse => hfalse.elim

/-- An edit is as atomic without its result. -/
theorem AtomicFrom.discard {e : Edit V α} (h : AtomicFrom e s) :
    AtomicFrom (do let _ ← e : Edit V Unit) s :=
  h.bind fun _ s' _ => .pure () s'

theorem AtomicFrom.ask {f : Graph V → Except Fault β} {k : β → Edit V α}
    (h : ∀ x, f s.graph = .ok x → AtomicFrom (k x) s) : AtomicFrom (Edit.ask f >>= k) s := by
  rw [AtomicFrom, ends_bind, ends_ask]
  exact h

end Edit

end RegionIR
