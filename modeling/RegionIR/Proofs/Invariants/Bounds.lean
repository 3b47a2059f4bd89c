import RegionIR.Proofs.Graph.Live

/-!
# Handles in use lie below the counters

All graphs draw their handles from the same counters, and a handle is never
given out again.  So a handle at or above its counter names nothing, which is
what makes a new entity new.

A counter is a word and has a last number.  It may be drawn from as long as it
does not have to go on from there, so it never leaves its range.

## Main results

* `NextHandles.Room` — handles that a counter can still give.
* `Graph.Bounded` — the invariant, and `Bounded.fresh_value` and its companions.
* `Bounded.advance`, `Bounded.grow` — counters and graphs that grow.
-/

namespace RegionIR

namespace NextHandles

variable {m n l : NextHandles}

/-- A number of handles of a kind can be drawn: after each of them the counter is still a word. -/
def Room (n : NextHandles) (k : EntityKind) (count : Nat) : Prop :=
  ∀ i < count, n.of k + i + 1 < UInt32.size

instance (n : NextHandles) (k : EntityKind) (count : Nat) : Decidable (n.Room k count) :=
  Nat.decidableBallLT count fun i _ => n.of k + i + 1 < UInt32.size

theorem room_zero (n : NextHandles) (k : EntityKind) : n.Room k 0 :=
  fun i hi => absurd hi (Nat.not_lt_zero i)

theorem room_one_iff {k : EntityKind} : n.Room k 1 ↔ n.of k + 1 < UInt32.size := by
  constructor
  · exact fun h => h 0 Nat.zero_lt_one
  · intro h i hi
    rwa [Nat.lt_one_iff.1 hi]

/-- All counters are words of 32 bits. -/
def InRange (n : NextHandles) : Prop := ∀ k, n.of k < UInt32.size

theorem inRange_iff : n.InRange ↔ n.value < UInt32.size ∧ n.op < UInt32.size ∧
    n.block < UInt32.size ∧ n.region < UInt32.size := by
  constructor
  · exact fun h => ⟨h .value, h .op, h .block, h .region⟩
  · rintro ⟨hvalue, hop, hblock, hregion⟩ k
    cases k with
    | value => exact hvalue
    | op => exact hop
    | block => exact hblock
    | region => exact hregion

instance (n : NextHandles) : Decidable n.InRange := decidable_of_iff _ inRange_iff.symm

/-- Counters that are nowhere behind, and are words if the others were. -/
structure Le (m n : NextHandles) : Prop where
  of : ∀ k, m.of k ≤ n.of k
  inRange : m.InRange → n.InRange

instance : LE NextHandles := ⟨Le⟩

theorem Le.value (h : m ≤ n) : m.value ≤ n.value := Le.of h .value

theorem Le.op (h : m ≤ n) : m.op ≤ n.op := Le.of h .op

theorem Le.block (h : m ≤ n) : m.block ≤ n.block := Le.of h .block

theorem Le.region (h : m ≤ n) : m.region ≤ n.region := Le.of h .region

theorem le_refl (n : NextHandles) : n ≤ n := ⟨fun _ => Nat.le_refl _, id⟩

theorem le_trans (h : m ≤ n) (h' : n ≤ l) : m ≤ l :=
  ⟨fun k => Nat.le_trans (h.of k) (h'.of k), fun hm => h'.inRange (h.inRange hm)⟩

theorem of_set (n : NextHandles) (num : Nat) (k k' : EntityKind) :
    (n.set num k).of k' = if k' = k then num else n.of k' := by
  cases k <;> cases k' <;> rfl

/-- Handles are drawn one after the other. -/
theorem room_succ_iff {k : EntityKind} {count : Nat} :
    n.Room k (count + 1) ↔ n.Room k 1 ∧ (n.set (n.of k + 1) k).Room k count := by
  have hnext : (n.set (n.of k + 1) k).of k = n.of k + 1 := by rw [of_set, if_pos rfl]
  rw [room_one_iff, Room, Room, hnext]
  constructor
  · refine fun h => ⟨h 0 (Nat.succ_pos count), fun i hi => ?_⟩
    rw [Nat.add_right_comm (n.of k)]
    exact h (i + 1) (Nat.succ_lt_succ hi)
  · rintro ⟨hfirst, hrest⟩ i hi
    cases i with
    | zero => exact hfirst
    | succ i =>
        have hlater := hrest i (Nat.lt_of_succ_lt_succ hi)
        rwa [Nat.add_right_comm (n.of k)] at hlater

/-- A counter goes on by handles that it has left. -/
theorem le_set {k : EntityKind} {count : Nat} (h : n.Room k count) :
    n ≤ n.set (n.of k + count) k where
  of k' := by
    rw [of_set]
    split
    · rename_i heq
      rw [heq]
      exact Nat.le_add_right _ _
    · exact Nat.le_refl _
  inRange hn k' := by
    rw [of_set]
    split
    · cases count with
      | zero => exact hn k
      | succ count => exact h count (Nat.lt_succ_self count)
    · exact hn k'

end NextHandles

/-- The counter of its kind is past the handle. -/
def Entity.Below (x : Entity) (n : NextHandles) : Prop := x.num < n.of x.kind

theorem Entity.Below.advance {x : Entity} {m n : NextHandles} (h : x.Below m) (hle : m ≤ n) :
    x.Below n :=
  Nat.lt_of_lt_of_le h (NextHandles.Le.of hle x.kind)

namespace Graph

variable {V : Type}

/-- Every handle of the graph lies below its counter. -/
structure Bounded (g : Graph V) (n : NextHandles) : Prop where
  value : ∀ {v}, g.values.contains v = true → v.num < n.value
  op : ∀ {o}, g.ops.contains o = true → o.num < n.op
  block : ∀ {b}, g.blocks.contains b = true → b.num < n.block
  region : ∀ {r}, g.regions.contains r = true → r.num < n.region

namespace Bounded

variable {g g' : Graph V} {n n' : NextHandles}

theorem empty (n : NextHandles) : Bounded (Graph.empty : Graph V) n where
  value := by
    intro v h
    cases h
  op := by
    intro o h
    cases h
  block := by
    intro b h
    cases h
  region := by
    intro r h
    cases h

theorem advance (h : Bounded g n) (hle : n ≤ n') : Bounded g n' where
  value hv := Nat.lt_of_lt_of_le (h.value hv) hle.value
  op ho := Nat.lt_of_lt_of_le (h.op ho) hle.op
  block hb := Nat.lt_of_lt_of_le (h.block hb) hle.block
  region hr := Nat.lt_of_lt_of_le (h.region hr) hle.region

theorem below (h : Bounded g n) {x : Entity} (hx : g.Live x) : x.Below n := by
  cases x with
  | value _ => exact h.value hx
  | op _ => exact h.op hx
  | block _ => exact h.block hx
  | region _ => exact h.region hx

/-- A change whose new handles lie below the counters. -/
theorem grow (h : Bounded g n) (hnew : ∀ x, g'.Live x → x.Below n ∨ g.Live x) :
    Bounded g' n where
  value {v} hv := (hnew (.value v) hv).elim id h.value
  op {o} ho := (hnew (.op o) ho).elim id h.op
  block {b} hb := (hnew (.block b) hb).elim id h.block
  region {r} hr := (hnew (.region r) hr).elim id h.region

/-- A change that brings no new handle into the graph. -/
theorem mono (h : Bounded g n) (hlive : ∀ x, g'.Live x → g.Live x) : Bounded g' n :=
  h.grow fun x hx => Or.inr (hlive x hx)

/-! ## New handles name nothing -/

private theorem find?_eq_none_of_bound {k : EntityKind} {β : Type} {t : Table (Handle k) β}
    {bound : Nat} (h : ∀ {x}, t.contains x = true → x.num < bound) {x : Handle k}
    (hx : bound ≤ x.num) : t.find? x = none := by
  apply Table.contains_eq_false_iff.1
  rw [Bool.eq_false_iff]
  intro hlive
  have hlt := h hlive
  omega

theorem fresh_value (h : Bounded g n) {v : Value} (hv : n.value ≤ v.num) :
    g.values.find? v = none :=
  find?_eq_none_of_bound h.value hv

theorem fresh_op (h : Bounded g n) {o : Op} (ho : n.op ≤ o.num) : g.ops.find? o = none :=
  find?_eq_none_of_bound h.op ho

theorem fresh_block (h : Bounded g n) {b : Block} (hb : n.block ≤ b.num) :
    g.blocks.find? b = none :=
  find?_eq_none_of_bound h.block hb

theorem fresh_region (h : Bounded g n) {r : Region} (hr : n.region ≤ r.num) :
    g.regions.find? r = none :=
  find?_eq_none_of_bound h.region hr

end Bounded

end Graph

end RegionIR
