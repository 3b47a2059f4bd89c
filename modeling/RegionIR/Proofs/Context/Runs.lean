import RegionIR.Session
import RegionIR.Proofs.Action.Faultless
import RegionIR.Proofs.Context.Calls

/-!
# Runs of calls on the contexts of a session

A caller works on any number of contexts in any order, and may bring to one
context what it got from another.  What it can bring are instances that some
context has handed out, so a run asks of each call that the instances named in
it are bound somewhere.

Tables keep what was planted in them, and whether an entry was planted can not
be seen from the table.  A run therefore remembers its calls.

## Main results

* `Run` — sessions with the calls that have led to them.
* `Stamped` — instances are told apart by their stamps, and no stamp is given twice.
* `Traced` — where the entries of all tables come from.
* `Run.traced` — every run ends in traced tables.
* `Run.answered` — what a call hands out is such an entry.
* `Onward.kept` — what is bound stays bound, wherever the run goes on to.
-/

namespace RegionIR

/-! ## The contexts of a session -/

namespace Session

variable {V ε α : Type} (s : Session V) {i j : Nat} (c c' : Context)

theorem contexts_withContext_self : (s.withContext i c).contexts i = c := if_pos rfl

/-- A context is an old one, or it is the one that has been put in its place. -/
theorem contexts_withContext_cases (i j : Nat) (c : Context) :
    (s.withContext i c).contexts j = s.contexts j ∨
      (i = j ∧ (s.withContext i c).contexts j = c) := by
  by_cases h : j = i
  · exact Or.inr ⟨h.symm, if_pos h⟩
  · exact Or.inl (if_neg h)

theorem made_le_withContext {s : Session V} (h : (s.contexts i).made ≤ c.made) (j : Nat) :
    (s.contexts j).made ≤ ((s.withContext i c).contexts j).made := by
  rcases s.contexts_withContext_cases i j c with hj | ⟨rfl, hj⟩
  · exact Nat.le_of_eq (congrArg Context.made hj.symm)
  · exact Nat.le_trans h (Nat.le_of_eq (congrArg Context.made hj.symm))

theorem withContext_contexts (i : Nat) : s.withContext i (s.contexts i) = s := by
  have hcontexts : (s.withContext i (s.contexts i)).contexts = s.contexts := by
    funext j
    rcases s.contexts_withContext_cases i j (s.contexts i) with hj | ⟨rfl, hj⟩
    · exact hj
    · exact hj
  cases s
  exact congrArg (Session.mk · _ _ _) hcontexts

theorem withContext_withContext : (s.withContext i c).withContext i c' = s.withContext i c' := by
  have hcontexts :
      ((s.withContext i c).withContext i c').contexts = (s.withContext i c').contexts := by
    funext j
    show (if j = i then c' else if j = i then c else s.contexts j) = if j = i then c' else _
    split
    · rfl
    · rfl
  exact congrArg (Session.mk · s.graphs s.next s.journal) hcontexts

/-- What holds where an action on a context ends, with that context put in its place. -/
theorem ends_onContext (a : Action Context ε α) {done : α → Session V → Prop}
    {refused : ε → Session V → Prop} :
    ((onContext i a).run s).Ends done refused ↔
      (a.run (s.contexts i)).Ends (fun x c => done x (s.withContext i c))
        fun e c => refused e (s.withContext i c) := by
  show ((a.run (s.contexts i)).mapState (s.withContext i)).Ends done refused ↔ _
  cases a.run (s.contexts i) <;> rfl

theorem run_onContext_of_done {s : Session V} {c c' : Context} {a : Action Context ε α} {x : α}
    (hc : s.contexts i = c) (h : a.run c = .done x c') :
    (onContext i a).run s = .done x (s.withContext i c') := by
  show (a.run (s.contexts i)).mapState (s.withContext i) = _
  rw [hc, h]
  rfl

theorem run_onContext_of_refused {s : Session V} {c c' : Context} {a : Action Context ε α} {e : ε}
    (hc : s.contexts i = c) (h : a.run c = .refused e c') :
    (onContext i a).run s = .refused e (s.withContext i c') := by
  show (a.run (s.contexts i)).mapState (s.withContext i) = _
  rw [hc, h]
  rfl

/-- A refusal that leaves the context as it is leaves the session as it is. -/
theorem run_onContext_of_unchanged {s : Session V} {a : Action Context ε α} {e : ε}
    (h : a.run (s.contexts i) = .refused e (s.contexts i)) :
    (onContext i a).run s = .refused e s := by
  rw [run_onContext_of_refused rfl h, withContext_contexts]

theorem run_onContext_of_fault {s : Session V} {a : Action Context ε α} {cause : Fault}
    (h : a.run (s.contexts i) = .fault cause) : (onContext i a).run s = .fault cause := by
  show (a.run (s.contexts i)).mapState (s.withContext i) = _
  rw [h]
  rfl

theorem faultless_onContext (a : Action Context ε α) :
    ((onContext i a).run s).Faultless ↔ (a.run (s.contexts i)).Faultless := by
  show ((a.run (s.contexts i)).mapState (s.withContext i)).Faultless ↔ _
  cases a.run (s.contexts i) <;> rfl

end Session

namespace Context

/-- Calls and the contexts that they were made on, the latest first. -/
abbrev Past := List (Nat × Call)

variable {V : Type} {past : Past} {s s' : Session V} {call : Call} {c' : Context} {i j : Nat}
  {k : TypeKind} {t : Ty} {key : AttributeKey} {a : Attribute}

/-! ## What a caller can bring -/

/-- Some context keeps the type. -/
def TypeBound (s : Session V) (t : Ty) : Prop :=
  ∃ i k, (s.contexts i).types.find? k = some t

/-- Some context keeps the attribute. -/
def AttributeBound (s : Session V) (a : Attribute) : Prop :=
  ∃ i key, (s.contexts i).attributes.find? key = some a

/-- The types that a caller can have got hold of. -/
inductive HasType (s : Session V) : Ty → Prop where
  | bound {t : Ty} (h : TypeBound s t) : HasType s t
  | ofAttribute {a : Attribute} (h : AttributeBound s a) : HasType s a.ty

/-- The caller has what it brings. -/
structure Call.Held (s : Session V) (call : Call) : Prop where
  hasType : ∀ t ∈ call.types, HasType s t
  attributeBound : ∀ a ∈ call.attributes, AttributeBound s a

/-- A caller who brings nothing has all that it brings. -/
theorem Call.held_of_nil (htypes : call.types = []) (hattributes : call.attributes = []) :
    call.Held s where
  hasType t h := by
    rw [htypes] at h
    cases h
  attributeBound a h := by
    rw [hattributes] at h
    cases h

theorem Call.held_of_type (ht : TypeBound s t) (htypes : call.types = [t])
    (hattributes : call.attributes = []) : call.Held s where
  hasType t' h := by
    rw [htypes] at h
    obtain rfl : t' = t := List.mem_singleton.1 h
    exact .bound ht
  attributeBound a h := by
    rw [hattributes] at h
    cases h

theorem Call.held_of_attribute (ha : AttributeBound s a) (htypes : call.types = [])
    (hattributes : call.attributes = [a]) : call.Held s where
  hasType t h := by
    rw [htypes] at h
    cases h
  attributeBound a' h := by
    rw [hattributes] at h
    obtain rfl : a' = a := List.mem_singleton.1 h
    exact ha

/-- The sessions that calls lead to, done or refused. -/
inductive Run : Past → Session V → Prop where
  | start : Run [] {}
  /-- Work on graphs and on the journal leaves the contexts alone. -/
  | elsewhere {past : Past} {s s' : Session V} (h : Run past s)
      (hsame : s'.contexts = s.contexts) : Run past s'
  | done {past : Past} {s s' : Session V} {i : Nat} {call : Call} {answer : Answer}
      (h : Run past s) (hheld : call.Held s)
      (hrun : (Session.onContext i call.action).run s = .done answer s') :
      Run ((i, call) :: past) s'
  | refused {past : Past} {s s' : Session V} {i : Nat} {call : Call} {e : CallError}
      (h : Run past s) (hheld : call.Held s)
      (hrun : (Session.onContext i call.action).run s = .refused e s') :
      Run ((i, call) :: past) s'

/-! ## Where entries come from -/

/-- A text that was made of a type planted under the kind of texts, and where it is bound. -/
structure TextUnder (past : Past) (i : Nat) (key : AttributeKey) (a : Attribute) : Prop where
  key_eq : ∃ value, key = ⟨.nonNumeric, .str value⟩
  payload_eq : a.payload = key.payload
  planted : (i, .addType .nonNumeric a.ty) ∈ past

/-- A text that was made of a type planted under the kind of texts, wherever it is bound now. -/
structure TextOfPlanted (past : Past) (a : Attribute) : Prop where
  payload_eq : ∃ value, a.payload = .str value
  planted : ∃ i, (i, .addType .nonNumeric a.ty) ∈ past

theorem TextUnder.cons (h : TextUnder past i key a) (x : Nat × Call) :
    TextUnder (x :: past) i key a :=
  ⟨h.key_eq, h.payload_eq, List.mem_cons_of_mem x h.planted⟩

theorem TextOfPlanted.cons (h : TextOfPlanted past a) (x : Nat × Call) :
    TextOfPlanted (x :: past) a :=
  ⟨h.payload_eq, h.planted.imp fun _ => List.mem_cons_of_mem x⟩

/-- Instances are told apart by their stamps, and no instance carries a stamp that is yet to be
given. -/
structure Stamped {β : Type} (s : Session V) (stamp : β → Stamp) (Bound : β → Prop) : Prop where
  lt : ∀ {x}, Bound x → (stamp x).serial < (s.contexts (stamp x).context).made
  inj : ∀ {x y}, Bound x → Bound y → stamp x = stamp y → x = y

theorem Stamped.of_unbound {β : Type} {stamp : β → Stamp} {Bound : β → Prop}
    (h : ∀ x, ¬ Bound x) : Stamped s stamp Bound where
  lt hx := absurd hx (h _)
  inj hx := absurd hx (h _)

/-- All entries have the content of their keys, but for those that were planted and the texts whose
type was. -/
structure Traced (past : Past) (s : Session V) : Prop where
  name_eq : ∀ i, (s.contexts i).name = i
  type_kind : ∀ {i k t}, (s.contexts i).types.find? k = some t →
    t.kind = k ∨ (i, .addType k t) ∈ past
  positive : ∀ {t}, TypeBound s t → checkWidth t.kind = .ok ()
  types : Stamped s Ty.stamp (TypeBound s)
  attributes : Stamped s Attribute.stamp (AttributeBound s)
  attribute_key : ∀ {i key a}, (s.contexts i).attributes.find? key = some a →
    a.key = key ∨ (i, .addAttribute key a) ∈ past ∨ TextUnder past i key a
  attribute_type : ∀ {a}, AttributeBound s a → TypeBound s a.ty
  fits : ∀ {a}, AttributeBound s a →
    a.ty.kind.misfit a.payload = .ok none ∨ TextOfPlanted past a

theorem Traced.start : Traced [] ({} : Session V) where
  name_eq _ := rfl
  type_kind h := by cases h
  positive := by
    rintro t ⟨i, k, h⟩
    cases h
  types := by
    refine .of_unbound fun t ht => ?_
    obtain ⟨i, k, h⟩ := ht
    cases h
  attributes := by
    refine .of_unbound fun a ha => ?_
    obtain ⟨i, key, h⟩ := ha
    cases h
  attribute_key h := by cases h
  attribute_type := by
    rintro a ⟨i, key, h⟩
    cases h
  fits := by
    rintro a ⟨i, key, h⟩
    cases h

/-- One more call to remember. -/
theorem Traced.cons (h : Traced past s) (x : Nat × Call) : Traced (x :: past) s where
  name_eq := h.name_eq
  type_kind hk := (h.type_kind hk).imp_right (List.mem_cons_of_mem x)
  positive := h.positive
  types := h.types
  attributes := h.attributes
  attribute_key ha := (h.attribute_key ha).imp_right
    (Or.imp (List.mem_cons_of_mem x) (·.cons x))
  attribute_type := h.attribute_type
  fits ha := (h.fits ha).imp_right (·.cons x)

/-- One stamp, one type. -/
theorem Traced.stamp_inj (h : Traced past s) {t' : Ty} (ht : TypeBound s t)
    (ht' : TypeBound s t') (heq : t.stamp = t'.stamp) : t = t' :=
  h.types.inj ht ht' heq

/-- Whatever type a caller has is bound. -/
theorem Traced.typeBound (h : Traced past s) (ht : HasType s t) : TypeBound s t := by
  cases ht with
  | bound ht => exact ht
  | ofAttribute ha => exact h.attribute_type ha

/-! ## What one change keeps -/

theorem TypeBound.withContext (ht : TypeBound s t) (hchange : Change call (s.contexts i) c') :
    TypeBound (s.withContext i c') t := by
  obtain ⟨j, k, ht⟩ := ht
  refine ⟨j, k, ?_⟩
  rcases s.contexts_withContext_cases i j c' with hj | ⟨rfl, hj⟩
  · rw [hj]
    exact ht
  · rw [hj]
    exact hchange.find?_types ht

theorem AttributeBound.withContext (ha : AttributeBound s a)
    (hchange : Change call (s.contexts i) c') : AttributeBound (s.withContext i c') a := by
  obtain ⟨j, key, ha⟩ := ha
  refine ⟨j, key, ?_⟩
  rcases s.contexts_withContext_cases i j c' with hj | ⟨rfl, hj⟩
  · rw [hj]
    exact ha
  · rw [hj]
    exact hchange.find?_attributes ha

/-- What the caller has it keeps. -/
theorem Call.Held.withContext {call' : Call} (hheld : call'.Held s)
    (hchange : Change call (s.contexts i) c') : call'.Held (s.withContext i c') where
  hasType t ht := by
    cases hheld.hasType t ht with
    | bound ht => exact .bound (ht.withContext hchange)
    | ofAttribute ha => exact .ofAttribute (ha.withContext hchange)
  attributeBound a ha := (hheld.attributeBound a ha).withContext hchange

/-- After a change a bound type was bound before, or it is the new instance and has a width. -/
theorem Traced.typeBound_cases (h : Traced past s) (hheld : call.Held s)
    (hchange : Change call (s.contexts i) c') (ht : TypeBound (s.withContext i c') t) :
    TypeBound s t ∨ ∃ k, (s.contexts i).types.find? k = none ∧ c'.types.find? k = some t ∧
      checkWidth t.kind = .ok () ∧
        t.stamp = (s.contexts i).nextStamp ∧ c'.made = (s.contexts i).made + 1 := by
  obtain ⟨j, k, ht⟩ := ht
  rcases s.contexts_withContext_cases i j c' with hj | ⟨rfl, hj⟩
  · exact Or.inl ⟨j, k, hj ▸ ht⟩
  · rw [hj] at ht
    rcases hchange.type_cases ht with hold | ⟨hfree, hwidth, rfl, hmade⟩ | rfl
    · exact Or.inl ⟨_, k, hold⟩
    · exact Or.inr ⟨k, hfree, ht, hwidth, rfl, hmade⟩
    · exact Or.inl (h.typeBound (hheld.hasType t (List.mem_singleton.2 rfl)))

/-- After a change a bound attribute was bound before, or it is the new instance and its payload
has been admitted. -/
theorem attributeBound_cases (hheld : call.Held s) (hchange : Change call (s.contexts i) c')
    (ha : AttributeBound (s.withContext i c') a) :
    AttributeBound s a ∨ ∃ key, (s.contexts i).attributes.find? key = none ∧
      c'.attributes.find? key = some a ∧ Admitted call (s.contexts i) key a.ty a.payload ∧
        a.stamp = (s.contexts i).nextStamp ∧ c'.made = (s.contexts i).made + 1 := by
  obtain ⟨j, key, ha⟩ := ha
  rcases s.contexts_withContext_cases i j c' with hj | ⟨rfl, hj⟩
  · exact Or.inl ⟨j, key, hj ▸ ha⟩
  · rw [hj] at ha
    rcases hchange.attribute_cases ha with hold | ⟨hfree, hadmitted, hstamp, hmade⟩ | rfl
    · exact Or.inl ⟨_, key, hold⟩
    · exact Or.inr ⟨key, hfree, ha, hadmitted, hstamp, hmade⟩
    · exact Or.inl (hheld.attributeBound a (List.mem_singleton.2 rfl))

/-- A payload is admitted for a type that is bound. -/
theorem Traced.typeBound_of_admitted (h : Traced past s) (hheld : call.Held s) {p : Payload}
    (hadmitted : Admitted call (s.contexts i) key t p) : TypeBound s t := by
  cases hadmitted with
  | checked ht =>
      rcases ht with hcall | ⟨k, hbound⟩
      · exact h.typeBound (hheld.hasType t hcall)
      · exact ⟨i, k, hbound⟩
  | text ht => exact ⟨i, .nonNumeric, ht⟩

/-- An admitted payload and its type give the key, unless it is a text of a planted type. -/
theorem Traced.key_of_admitted (h : Traced past s)
    (hadmitted : Admitted call (s.contexts i) key a.ty a.payload) :
    a.key = key ∨ TextUnder past i key a := by
  obtain ⟨stamp, t, p⟩ := a
  cases hadmitted with
  | checked => exact Or.inl rfl
  | @text _ value ht =>
      rcases h.type_kind ht with hkind | hplanted
      · refine Or.inl ?_
        show (⟨t.kind, .str value⟩ : AttributeKey) = _
        rw [hkind]
      · exact Or.inr ⟨⟨value, rfl⟩, rfl, hplanted⟩

/-- An admitted payload fits its type, unless it is a text of a planted type. -/
theorem Traced.fits_of_admitted (h : Traced past s)
    (hadmitted : Admitted call (s.contexts i) key a.ty a.payload) :
    a.ty.kind.misfit a.payload = .ok none ∨ TextOfPlanted past a := by
  obtain ⟨stamp, t, p⟩ := a
  cases hadmitted with
  | checked _ hfits => exact Or.inl hfits
  | @text _ value ht =>
      rcases h.type_kind ht with hkind | hplanted
      · refine Or.inl ?_
        show t.kind.misfit (.str value) = .ok none
        rw [hkind]
        rfl
      · exact Or.inr ⟨⟨value, rfl⟩, i, hplanted⟩

/-- A change makes at most one instance, with the next stamp of its context. -/
theorem Stamped.withContext {β : Type} {stamp : β → Stamp} {Bound Bound' N : β → Prop}
    (h : Stamped s stamp Bound) (hname : (s.contexts i).name = i)
    (hle : (s.contexts i).made ≤ c'.made)
    (hcases : ∀ {x}, Bound' x → Bound x ∨ (N x ∧ stamp x = (s.contexts i).nextStamp ∧
      c'.made = (s.contexts i).made + 1))
    (hunique : ∀ {x y}, N x → N y → x = y) :
    Stamped (s.withContext i c') stamp Bound' where
  lt := by
    intro x hx
    rcases hcases hx with hold | ⟨-, hstamp, hmade⟩
    · have hle := Session.made_le_withContext c' hle (stamp x).context
      exact Nat.lt_of_lt_of_le (h.lt hold) hle
    · have hcontext : (stamp x).context = i := by
        rw [hstamp]
        exact hname
      have hserial : (stamp x).serial = (s.contexts i).made := by
        rw [hstamp]
        rfl
      rw [hcontext, hserial, Session.contexts_withContext_self, hmade]
      exact Nat.lt_succ_self _
  inj := by
    have hfree : ∀ {x}, Bound x → stamp x ≠ (s.contexts i).nextStamp := by
      intro x hx heq
      have hlt := h.lt hx
      rw [heq, nextStamp, hname] at hlt
      exact Nat.lt_irrefl _ hlt
    intro x y hx hy heq
    rcases hcases hx with hold | ⟨hnew, hstamp, -⟩
    · rcases hcases hy with hold' | ⟨-, hstamp', -⟩
      · exact h.inj hold hold' heq
      · exact absurd (heq.trans hstamp') (hfree hold)
    · rcases hcases hy with hold' | ⟨hnew', -, -⟩
      · exact absurd (heq.symm.trans hstamp) (hfree hold')
      · exact hunique hnew hnew'

/-- A change in the course of a remembered call keeps all entries traced. -/
theorem Traced.change (h : Traced past s) (hheld : call.Held s) (hcall : (i, call) ∈ past)
    (hchange : Change call (s.contexts i) c') : Traced past (s.withContext i c') where
  name_eq j := by
    rcases s.contexts_withContext_cases i j c' with hj | ⟨rfl, hj⟩
    · rw [hj]
      exact h.name_eq j
    · rw [hj, hchange.name_eq]
      exact h.name_eq i
  type_kind := by
    intro j k t ht
    rcases s.contexts_withContext_cases i j c' with hj | ⟨rfl, hj⟩
    · exact h.type_kind (hj ▸ ht)
    · rw [hj] at ht
      rcases hchange.type_cases ht with hold | ⟨-, -, rfl, -⟩ | rfl
      · exact h.type_kind hold
      · exact Or.inl rfl
      · exact Or.inr hcall
  positive := by
    intro t ht
    rcases h.typeBound_cases hheld hchange ht with hold | ⟨k, -, -, hwidth, -⟩
    · exact h.positive hold
    · exact hwidth
  types := by
    refine h.types.withContext (N := fun t => ∃ k, (s.contexts i).types.find? k = none ∧
      c'.types.find? k = some t) (h.name_eq i) hchange.made_le (fun {t} ht => ?_) ?_
    · refine (h.typeBound_cases hheld hchange ht).imp_right ?_
      rintro ⟨k, hfree, hfind, -, hrest⟩
      exact ⟨⟨k, hfree, hfind⟩, hrest⟩
    · rintro t t' ⟨k, hfree, hfind⟩ ⟨k', hfree', hfind'⟩
      exact hchange.newType_unique hfree hfind hfree' hfind'
  attributes := by
    refine h.attributes.withContext (N := fun a => ∃ key,
      (s.contexts i).attributes.find? key = none ∧ c'.attributes.find? key = some a)
      (h.name_eq i) hchange.made_le (fun {a} ha => ?_) ?_
    · refine (attributeBound_cases hheld hchange ha).imp_right ?_
      rintro ⟨key, hfree, hfind, -, hrest⟩
      exact ⟨⟨key, hfree, hfind⟩, hrest⟩
    · rintro a a' ⟨key, hfree, hfind⟩ ⟨key', hfree', hfind'⟩
      exact hchange.newAttribute_unique hfree hfind hfree' hfind'
  attribute_key := by
    intro j key a ha
    rcases s.contexts_withContext_cases i j c' with hj | ⟨rfl, hj⟩
    · exact h.attribute_key (hj ▸ ha)
    · rw [hj] at ha
      rcases hchange.attribute_cases ha with hold | ⟨-, hadmitted, -⟩ | rfl
      · exact h.attribute_key hold
      · exact (h.key_of_admitted hadmitted).imp_right Or.inr
      · exact Or.inr (Or.inl hcall)
  attribute_type := by
    intro a ha
    rcases attributeBound_cases hheld hchange ha with hold | ⟨key, -, -, hadmitted, -⟩
    · exact (h.attribute_type hold).withContext hchange
    · exact (h.typeBound_of_admitted hheld hadmitted).withContext hchange
  fits := by
    intro a ha
    rcases attributeBound_cases hheld hchange ha with hold | ⟨key, -, -, hadmitted, -⟩
    · exact h.fits hold
    · exact h.fits_of_admitted hadmitted

/-- So do all the changes of a call. -/
theorem Traced.leads (h : Traced past s) (hheld : call.Held s) (hcall : (i, call) ∈ past)
    (hleads : Leads call (s.contexts i) c') :
    Traced past (s.withContext i c') ∧ call.Held (s.withContext i c') := by
  induction hleads with
  | refl =>
      rw [Session.withContext_contexts]
      exact ⟨h, hheld⟩
  | @tail c c' _ hchange ih =>
      obtain ⟨hc, hheldc⟩ := ih
      have hchange' : Change call ((s.withContext i c).contexts i) c' := by
        rw [Session.contexts_withContext_self]
        exact hchange
      rw [← Session.withContext_withContext s c c']
      exact ⟨hc.change hheldc hcall hchange', hheldc.withContext hchange'⟩

/-! ## Runs -/

/-- Entries are as traced as they were where no context has changed. -/
theorem Traced.elsewhere (h : Traced past s) (hsame : s'.contexts = s.contexts) :
    Traced past s' := by
  obtain ⟨contexts, graphs, next, journal⟩ := s
  obtain ⟨contexts', graphs', next', journal'⟩ := s'
  obtain rfl : contexts' = contexts := hsame
  exact ⟨h.name_eq, h.type_kind, h.positive, ⟨h.types.lt, h.types.inj⟩,
    ⟨h.attributes.lt, h.attributes.inj⟩, h.attribute_key, h.attribute_type, h.fits⟩

/-- Where a call ends all entries are traced, and what it hands out is one of them. -/
theorem Traced.ends_call (h : Traced past s) (hheld : call.Held s) (i : Nat) :
    ((Session.onContext i call.action).run s).Ends
      (fun answer s' => Traced ((i, call) :: past) s' ∧ call.Answered (s'.contexts i) answer)
      fun _ s' => Traced ((i, call) :: past) s' := by
  have hpast : Traced ((i, call) :: past) s := h.cons (i, call)
  have hleads {c' : Context} (hc : Leads call (s.contexts i) c') :
      Traced ((i, call) :: past) (s.withContext i c') :=
    (hpast.leads hheld List.mem_cons_self hc).1
  rw [Session.ends_onContext]
  refine (Call.ends_action call (s.contexts i)).mono (fun answer c' hc => ?_) fun _ c' hc => ?_
  · rw [Session.contexts_withContext_self]
    exact ⟨hleads hc.1, hc.2⟩
  · exact hleads hc.1

theorem Run.traced (h : Run past s) : Traced past s := by
  induction h with
  | start => exact Traced.start
  | elsewhere _ hsame ih => exact ih.elsewhere hsame
  | @done _ s s' i call _ _ hheld hrun ih =>
      have hends := ih.ends_call hheld i
      rw [hrun] at hends
      exact hends.1
  | @refused _ s s' i call _ _ hheld hrun ih =>
      have hends := ih.ends_call hheld i
      rw [hrun] at hends
      exact hends

/-- What a call hands out is bound under its key in the context of the call. -/
theorem Run.answered (h : Run past s) (hheld : call.Held s) {answer : Answer}
    (hrun : (Session.onContext i call.action).run s = .done answer s') :
    call.Answered (s'.contexts i) answer := by
  have hends := h.traced.ends_call hheld i
  rw [hrun] at hends
  exact hends.2

/-! ## Bound for good -/

/-- All that is bound stays bound. -/
structure Kept (s s' : Session V) : Prop where
  types : ∀ {j k t}, (s.contexts j).types.find? k = some t →
    (s'.contexts j).types.find? k = some t
  attributes : ∀ {j key a}, (s.contexts j).attributes.find? key = some a →
    (s'.contexts j).attributes.find? key = some a

theorem Kept.of_contexts (hsame : s'.contexts = s.contexts) : Kept s s' where
  types ht := by rwa [hsame]
  attributes ha := by rwa [hsame]

theorem Kept.trans {s'' : Session V} (h : Kept s s') (h' : Kept s' s'') : Kept s s'' where
  types ht := h'.types (h.types ht)
  attributes ha := h'.attributes (h.attributes ha)

theorem Kept.withContext (hleads : Leads call (s.contexts i) c') : Kept s (s.withContext i c') where
  types := by
    intro j k t ht
    rcases s.contexts_withContext_cases i j c' with hj | ⟨rfl, hj⟩
    · rw [hj]
      exact ht
    · rw [hj]
      exact hleads.find?_types ht
  attributes := by
    intro j key a ha
    rcases s.contexts_withContext_cases i j c' with hj | ⟨rfl, hj⟩
    · rw [hj]
      exact ha
    · rw [hj]
      exact hleads.find?_attributes ha

theorem ends_call_kept (s : Session V) (i : Nat) (call : Call) :
    ((Session.onContext i call.action).run s).Ends (fun _ s' => Kept s s')
      fun _ s' => Kept s s' := by
  rw [Session.ends_onContext]
  exact (Call.ends_action call (s.contexts i)).mono (fun _ _ hc => .withContext hc.1)
    fun _ _ hc => .withContext hc.1

/-- Where a run goes on to. -/
inductive Onward (past : Past) (s : Session V) : Past → Session V → Prop where
  | here : Onward past s past s
  | elsewhere {past' : Past} {s' s'' : Session V} (h : Onward past s past' s')
      (hsame : s''.contexts = s'.contexts) : Onward past s past' s''
  | done {past' : Past} {s' s'' : Session V} {i : Nat} {call : Call} {answer : Answer}
      (h : Onward past s past' s') (hheld : call.Held s')
      (hrun : (Session.onContext i call.action).run s' = .done answer s'') :
      Onward past s ((i, call) :: past') s''
  | refused {past' : Past} {s' s'' : Session V} {i : Nat} {call : Call} {e : CallError}
      (h : Onward past s past' s') (hheld : call.Held s')
      (hrun : (Session.onContext i call.action).run s' = .refused e s'') :
      Onward past s ((i, call) :: past') s''

theorem Run.onward {past' : Past} (h : Run past s) (honward : Onward past s past' s') :
    Run past' s' := by
  induction honward with
  | here => exact h
  | elsewhere _ hsame ih => exact ih.elsewhere hsame
  | done _ hheld hrun ih => exact ih.done hheld hrun
  | refused _ hheld hrun ih => exact ih.refused hheld hrun

theorem Kept.of_done {answer : Answer}
    (hrun : (Session.onContext i call.action).run s = .done answer s') : Kept s s' := by
  have hends := ends_call_kept s i call
  rw [hrun] at hends
  exact hends

theorem Kept.of_refused {e : CallError}
    (hrun : (Session.onContext i call.action).run s = .refused e s') : Kept s s' := by
  have hends := ends_call_kept s i call
  rw [hrun] at hends
  exact hends

theorem Onward.kept {past' : Past} (h : Onward past s past' s') : Kept s s' := by
  induction h with
  | here => exact .of_contexts rfl
  | elsewhere _ hsame ih => exact ih.trans (.of_contexts hsame)
  | done _ _ hrun ih => exact ih.trans (.of_done hrun)
  | refused _ _ hrun ih => exact ih.trans (.of_refused hrun)

end Context

end RegionIR
