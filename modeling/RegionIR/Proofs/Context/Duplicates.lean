import RegionIR.Proofs.Context.InsertOnce
import RegionIR.Proofs.Number.Equality

/-!
# What a refused insertion reports

An insertion under a bound key is refused, and the refusal tells whether the
context has the same thing there already.  Types are compared by their kinds,
and this is what their keys go by, so a report on types is a report on contents.

Attributes are compared as instances and as numbers, while their keys go by
bits.  Where these disagree the report is not about contents: a zero is taken
for the zero of the other sign, and a NaN that another context has made is
taken for something else.

## Main results

* `Traced.equal_type_iff`, `Traced.equal_attribute_iff` — equality of bound instances.
* `TakenForSame` — what is reported as the same.
* `Run.duplicatesReported` — the report on every insertion under a bound key, and where it goes
  by contents.
* `zero_taken_for_other` — one zero is reported as the other.
-/

namespace RegionIR.Context

open RegionIR.Action

variable {V : Type} {past : Past} {s : Session V} {i : Nat} {k : TypeKind} {t t' : Ty}
  {key : AttributeKey} {a a' old : Attribute}

/-! ## Equality of instances -/

/-- Bound types are equal iff their kinds are. -/
theorem Traced.equal_type_iff (h : Traced past s) (ht : TypeBound s t) (ht' : TypeBound s t') :
    t.equal t' = true ↔ t.kind = t'.kind := by
  rw [Ty.equal, Bool.or_eq_true, beq_iff_eq, Ty.sameInstance, beq_iff_eq]
  constructor
  · rintro (hstamp | hkind)
    · exact congrArg Ty.kind (h.stamp_inj ht ht' hstamp)
    · exact hkind
  · exact Or.inr

/-- Bound attributes are equal iff they are one instance or agree in kind and as numbers. -/
theorem Traced.equal_attribute_iff (h : Traced past s) (ha : AttributeBound s a)
    (ha' : AttributeBound s a') :
    a.equal a' = true ↔
      a = a' ∨ (a.ty.kind = a'.ty.kind ∧ a.payload.numericEq a'.payload = true) := by
  rw [Attribute.equal, Bool.or_eq_true, Bool.and_eq_true,
    h.equal_type_iff (h.attribute_type ha) (h.attribute_type ha'), Attribute.sameInstance,
    beq_iff_eq]
  refine or_congr ⟨h.attributes.inj ha ha', ?_⟩ Iff.rfl
  rintro rfl
  rfl

/-! ## What is taken for the same -/

/-- The entries have the content of their keys. -/
structure Matching (c : Context) : Prop where
  type_kind : ∀ {k t}, c.types.find? k = some t → t.kind = k
  attribute_key : ∀ {key a}, c.attributes.find? key = some a → a.key = key

/-- A table whose caller has planted nothing but contents of their keys matches them. -/
theorem Traced.matching (h : Traced past s) (hfaithful : Faithful i past) :
    Matching (s.contexts i) where
  type_kind ht := by
    have hcontent := h.content hfaithful (.type ht)
    exact BoundKey.type.inj (Option.some.inj hcontent)
  attribute_key ha := by
    have hcontent := h.content hfaithful (.attr ha)
    exact BoundKey.attr.inj (Option.some.inj hcontent)

/-- What is reported as the same as `old`, which is bound to the key: whatever has the content of
the key, but of the NaNs `old` only, and under the key of a zero both zeros. -/
def TakenForSame (key : AttributeKey) (old a : Attribute) : Prop :=
  (a.key = key ∧ (key.payload.isNaN = true → a = old)) ∨
    (a.ty.kind = key.kind ∧ a.payload.isFloatZero = true ∧ key.payload.isFloatZero = true)

instance (key : AttributeKey) (old a : Attribute) : Decidable (TakenForSame key old a) :=
  inferInstanceAs (Decidable (_ ∨ _))

theorem Traced.equal_iff_takenForSame (h : Traced past s) (hold : AttributeBound s old)
    (ha : AttributeBound s a) (hkey : old.key = key) :
    old.equal a = true ↔ TakenForSame key old a := by
  subst hkey
  rw [h.equal_attribute_iff hold ha, Payload.numericEq_iff]
  constructor
  · rintro (rfl | ⟨hkind, ⟨hpayload, hnumber⟩ | ⟨hzero, hzero'⟩⟩)
    · exact Or.inl ⟨rfl, fun _ => rfl⟩
    · have hkey : a.key = old.key := by rw [Attribute.key, Attribute.key, hkind, hpayload]
      have hnotNaN : ¬ old.payload.isNaN = true := by
        rw [hpayload, hnumber]
        exact Bool.false_ne_true
      exact Or.inl ⟨hkey, fun hnan => absurd hnan hnotNaN⟩
    · exact Or.inr ⟨hkind.symm, hzero', hzero⟩
  · rintro (⟨hkey, hnan⟩ | ⟨hkind, hzero, hzero'⟩)
    · obtain ⟨hkind, hpayload⟩ := AttributeKey.mk.inj hkey
      cases hnumber : old.payload.isNaN with
      | true => exact Or.inl (hnan hnumber).symm
      | false => exact Or.inr ⟨hkind.symm, Or.inl ⟨hpayload.symm, hpayload ▸ hnumber⟩⟩
    · exact Or.inr ⟨hkind.symm, Or.inr ⟨hzero', hzero⟩⟩

/-- Away from zeros and from the NaNs of other contexts, contents are what decides. -/
theorem takenForSame_iff_key_eq (hzero : key.payload.isFloatZero = false)
    (hnan : a.key = key → key.payload.isNaN = true → a = old) :
    TakenForSame key old a ↔ a.key = key := by
  constructor
  · rintro (⟨hkey, -⟩ | ⟨-, -, hfloatZero⟩)
    · exact hkey
    · exact absurd (hzero.symm.trans hfloatZero) Bool.false_ne_true
  · exact fun hkey => Or.inl ⟨hkey, hnan hkey⟩

/-! ## Insertions under bound keys -/

theorem run_call_addType_of_bound {old : Ty} (hold : (s.contexts i).types.find? k = some old)
    (t : Ty) :
    (Session.onContext i (Call.addType k t).action).run s =
      .refused (.duplicate
        (if old.equal t then .sameValue (.type k) else .differentValue (.type k))) s := by
  have hrun := run_addType_of_bound hold t
  exact Session.run_onContext_of_unchanged
    (run_bind_of_refused _ (run_mapError_of_refused _ hrun))

theorem run_call_addAttribute_of_bound (hold : (s.contexts i).attributes.find? key = some old)
    (a : Attribute) :
    (Session.onContext i (Call.addAttribute key a).action).run s =
      .refused (.duplicate
        (if old.equal a then .sameValue (.attr key) else .differentValue (.attr key))) s := by
  have hrun := run_addAttribute_of_bound hold a
  exact Session.run_onContext_of_unchanged
    (run_bind_of_refused _ (run_mapError_of_refused _ hrun))

/-- What insertions under the bound keys of a context report.  All of them are refused, and none
changes anything. -/
structure DuplicatesReported (s : Session V) (i : Nat) : Prop where
  /-- The same type is one of the same kind. -/
  ofType : ∀ {k old t}, (s.contexts i).types.find? k = some old → (Call.addType k t).Held s →
    (Session.onContext i (Call.addType k t).action).run s =
      .refused (.duplicate
        (if t.kind = k then .sameValue (.type k) else .differentValue (.type k))) s
  ofAttribute : ∀ {key old a}, (s.contexts i).attributes.find? key = some old →
    (Call.addAttribute key a).Held s →
      (Session.onContext i (Call.addAttribute key a).action).run s =
        .refused (.duplicate (if TakenForSame key old a then .sameValue (.attr key)
          else .differentValue (.attr key))) s
  /-- The same attribute is one of the same content, unless the key is that of a zero, or that of
  a NaN and the attribute is not of this context. -/
  byContent : ∀ {key old a}, (s.contexts i).attributes.find? key = some old →
    (Call.addAttribute key a).Held s → key.payload.isFloatZero = false →
      (key.payload.isNaN = true → ∃ key', (s.contexts i).attributes.find? key' = some a) →
        (Session.onContext i (Call.addAttribute key a).action).run s =
          .refused (.duplicate
            (if a.key = key then .sameValue (.attr key) else .differentValue (.attr key))) s

/-- What all contexts report whose entries match their keys. -/
theorem Run.duplicatesReported (h : Run past s) (hmatching : Matching (s.contexts i)) :
    DuplicatesReported s i where
  ofType := by
    intro k old t hold hheld
    have ht : TypeBound s t := h.traced.typeBound (hheld.hasType t (List.mem_singleton.2 rfl))
    have hequal : old.equal t = true ↔ t.kind = k := by
      rw [h.traced.equal_type_iff ⟨i, k, hold⟩ ht, hmatching.type_kind hold]
      exact eq_comm
    rw [run_call_addType_of_bound hold]
    simp only [hequal]
  ofAttribute := by
    intro key old a hold hheld
    have ha : AttributeBound s a := hheld.attributeBound a (List.mem_singleton.2 rfl)
    have hequal := h.traced.equal_iff_takenForSame ⟨i, key, hold⟩ ha (hmatching.attribute_key hold)
    rw [run_call_addAttribute_of_bound hold]
    simp only [hequal]
  byContent := by
    intro key old a hold hheld hzero hnan
    have ha : AttributeBound s a := hheld.attributeBound a (List.mem_singleton.2 rfl)
    -- In a matching table the content of an entry is the key that it is found under.
    have honly : a.key = key → key.payload.isNaN = true → a = old := by
      intro hkey hisNaN
      obtain ⟨key', ha'⟩ := hnan hisNaN
      obtain rfl : key' = key := (hmatching.attribute_key ha').symm.trans hkey
      exact Option.some.inj (ha'.symm.trans hold)
    have hequal := (h.traced.equal_iff_takenForSame ⟨i, key, hold⟩ ha
      (hmatching.attribute_key hold)).trans (takenForSame_iff_key_eq hzero honly)
    rw [run_call_addAttribute_of_bound hold]
    simp only [hequal]

/-! ## A NaN of each context -/

/-- The quiet NaN, of the type of doubles of the context. -/
def nanOf (i : Nat) : Attribute := ⟨⟨i, 1⟩, doubleType i, .float ⟨0x7ff8000000000000⟩⟩

def withNaN (i : Nat) : Context := (withDouble i).advanced.withAttribute (nanOf i).key (nanOf i)

/-- Two contexts have made the type of doubles, and the NaN of it. -/
def nans : Session DialectVerifier := (doubles.withContext 0 (withNaN 0)).withContext 1 (withNaN 1)

def makeNaNs : Past :=
  (1, .attributeOf (doubleType 1) (nanOf 1).payload) ::
    (0, .attributeOf (doubleType 0) (nanOf 0).payload) :: makeDoubles

theorem run_nans : Run makeNaNs nans := by
  have hmake : ∀ i, i < 2 → (Call.attributeOf (doubleType i) (nanOf i).payload).action.run
      (withDouble i) = .done (.attribute (nanOf i)) (withNaN i) := by decide +kernel
  have hfirst := run_doubles.done (Call.held_of_type ⟨0, .float .f64, rfl⟩ rfl rfl)
    (Session.run_onContext_of_done (Session.contexts_withContext_self _ _) (hmake 0 (by decide)))
  exact hfirst.done (Call.held_of_type ⟨1, .float .f64, rfl⟩ rfl rfl)
    (Session.run_onContext_of_done rfl (hmake 1 (by decide)))

/-- The NaN of the other context has the same content and is reported as another one. -/
theorem Run.duplicatesReported_nans : Run makeNaNs nans ∧ Matching (nans.contexts 0) ∧
    (nanOf 1).key = (nanOf 0).key ∧
    (Session.onContext 0 (Call.addAttribute (nanOf 0).key (nanOf 0)).action).run nans =
      .refused (.duplicate (.sameValue (.attr (nanOf 0).key))) nans ∧
    (Session.onContext 0 (Call.addAttribute (nanOf 0).key (nanOf 1)).action).run nans =
      .refused (.duplicate (.differentValue (.attr (nanOf 0).key))) nans ∧
    (Session.onContext 0 (Call.addType (.float .f64) (doubleType 1)).action).run nans =
      .refused (.duplicate (.sameValue (.type (.float .f64)))) nans := by
  have hfaithful : Faithful 0 makeNaNs := by
    constructor <;> simp [makeNaNs, makeDoubles]
  have hmatching : Matching (nans.contexts 0) := run_nans.traced.matching hfaithful
  have hheld : (Call.addAttribute (nanOf 0).key (nanOf 0)).Held nans :=
    Call.held_of_attribute ⟨0, (nanOf 0).key, rfl⟩ rfl rfl
  have hheld' : (Call.addAttribute (nanOf 0).key (nanOf 1)).Held nans :=
    Call.held_of_attribute ⟨1, (nanOf 1).key, rfl⟩ rfl rfl
  have hreported := Run.duplicatesReported run_nans hmatching
  have hsame := hreported.byContent rfl hheld rfl fun _ => ⟨(nanOf 0).key, rfl⟩
  have hdifferent := hreported.ofAttribute rfl hheld'
  rw [if_neg (by decide)] at hdifferent
  exact ⟨run_nans, hmatching, rfl, hsame, hdifferent,
    hreported.ofType rfl (Call.held_of_type ⟨1, .float .f64, rfl⟩ rfl rfl)⟩

/-! ## The other zero -/

/-- A session where both zeros are bound, each under its own key. -/
def zeros : Session DialectVerifier := (doubles.withContext 0 withPlusZero).withContext 0 withZeros

def makeZeros : Past :=
  (0, .attributeOf (doubleType 0) minusZero.payload) ::
    (0, .floatAttribute (doubleType 1) ⟨0⟩) :: makeDoubles

theorem run_zeros : Run makeZeros zeros :=
  (run_doubles.done (Call.held_of_type ⟨1, .float .f64, rfl⟩ rfl rfl) run_plusZero).done
    (Call.held_of_type ⟨0, .float .f64, rfl⟩ rfl rfl) run_minusZero

/-- Reports do not go by contents, even where all entries match their keys. -/
theorem zero_taken_for_other : ¬ ∀ (past : Past) (s s' : Session DialectVerifier) (i : Nat)
    (key : AttributeKey) (old a : Attribute) (e : DuplicateKeyError), Run past s →
      Matching (s.contexts i) → (s.contexts i).attributes.find? key = some old →
        (Call.addAttribute key a).Held s →
          (Session.onContext i (Call.addAttribute key a).action).run s =
            .refused (.duplicate e) s' → (e = .sameValue (.attr key) ↔ a.key = key) := by
  intro hall
  have hfaithful : Faithful 0 makeZeros := by
    constructor <;> simp [makeZeros, makeDoubles]
  have hheld : (Call.addAttribute plusZero.key minusZero).Held zeros :=
    Call.held_of_attribute ⟨0, minusZero.key, rfl⟩ rfl rfl
  have hold : (zeros.contexts 0).attributes.find? plusZero.key = some plusZero := rfl
  have hequal : plusZero.equal minusZero = true := by decide
  have hrun := run_call_addAttribute_of_bound hold minusZero
  rw [if_pos hequal] at hrun
  have hiff := hall _ _ _ _ _ _ _ _ run_zeros (run_zeros.traced.matching hfaithful) hold hheld hrun
  exact absurd (hiff.1 rfl) (by decide)

end RegionIR.Context
