import RegionIR.Graph.Rules
import RegionIR.Proofs.Graph.Creation
import RegionIR.Proofs.Graph.Erasure

/-!
# Operations keep what their traits ask for

A trait is checked once, when its operation is created.  Afterwards an
operation changes its operands one for one and its place in a block, but none
of the counts and attributes that a trait looks at, so the trait stays met.
What an operation does not control is whether its successors stay in the
graph; only erasure takes blocks away, and it asks for their branches first.

## Main results

* `OpView.brokenTrait_eq_none_iff` — what the check of a trait decides.
* `Graph.Lawful` — the invariant.
* `Lawful.modifyOp`, `Lawful.linkOp`, `Lawful.prune` — the changes that touch it.
-/

namespace RegionIR

variable {V : Type}

/-- What a trait asks of an operation. -/
def OpTrait.Met (t : OpTrait) (d : OpData V) : Prop :=
  match t with
  | .operands n => d.operands.length = n
  | .results n => d.results.length = n
  | .regions n => d.regions.length = n
  | .symbol => ∃ name, d.symbolName? = some name
  | .variadicOperands => True
  | .variadicResults => True
  | .symbolTable => True
  | .terminator => True

namespace OpView

theorem wrongCount_eq_none_iff (w : OpView V) (required : Nat) (what : String) (got : Nat) :
    w.wrongCount required what got = none ↔ got = required := by
  unfold wrongCount
  split
  · rename_i h
    exact ⟨fun _ => h, fun _ => rfl⟩
  · rename_i h
    constructor
    · intro hnone
      cases hnone
    · intro heq
      exact absurd heq h

theorem unnamedSymbol_eq_none_iff (w : OpView V) :
    w.unnamedSymbol = none ↔ ∃ name, w.data.symbolName? = some name := by
  unfold unnamedSymbol OpData.symbolName?
  cases w.data.attrs.find? OpTrait.symbolAttribute with
  | none => simp
  | some a =>
      rw [Option.bind_some]
      cases hstr : a.payload.asStr? <;> simp [hstr]

/-- A trait has no complaint about an operation iff it is met. -/
theorem brokenTrait_eq_none_iff (w : OpView V) (t : OpTrait) :
    w.brokenTrait t = none ↔ t.Met w.data := by
  cases t with
  | operands n => exact w.wrongCount_eq_none_iff n "operands" _
  | results n => exact w.wrongCount_eq_none_iff n "results" _
  | regions n => exact w.wrongCount_eq_none_iff n "regions" _
  | symbol => exact w.unnamedSymbol_eq_none_iff
  | variadicOperands => exact iff_of_true rfl trivial
  | variadicResults => exact iff_of_true rfl trivial
  | symbolTable => exact iff_of_true rfl trivial
  | terminator => exact iff_of_true rfl trivial

end OpView

namespace OpData

/-- All traits are met, and there is a table exactly where the trait for it is. -/
structure Lawful (d : OpData V) : Prop where
  met : ∀ t ∈ d.traits, t.Met d
  table : d.symbols.isSome = true ↔ .symbolTable ∈ d.traits

/-- Two entries differ at most in what no trait looks at. -/
structure Alike (d d' : OpData V) : Prop where
  operands : d'.operands.length = d.operands.length
  results : d'.results = d.results
  attrs : d'.attrs = d.attrs
  regions : d'.regions = d.regions
  successors : d'.successors = d.successors
  traits : d'.traits = d.traits
  symbols : d'.symbols.isSome = d.symbols.isSome

theorem Lawful.of_alike {d d' : OpData V} (h : d.Lawful) (ha : d.Alike d') : d'.Lawful where
  met := by
    intro t ht
    rw [ha.traits] at ht
    have hmet := h.met t ht
    cases t with
    | operands n => exact ha.operands.trans hmet
    | results n => exact (congrArg List.length ha.results).trans hmet
    | regions n => exact (congrArg List.length ha.regions).trans hmet
    | symbol =>
        obtain ⟨name, hname⟩ := hmet
        refine ⟨name, ?_⟩
        rw [symbolName?, ha.attrs]
        exact hname
    | variadicOperands => trivial
    | variadicResults => trivial
    | symbolTable => trivial
    | terminator => trivial
  table := by
    rw [ha.symbols, ha.traits]
    exact h.table

end OpData

namespace Graph

/-- Every operation is lawful, and its successors are in the graph. -/
structure Lawful (g : Graph V) : Prop where
  op : ∀ {o d}, g.ops.find? o = some d → d.Lawful
  successor : ∀ {o d b}, g.ops.find? o = some d → b ∈ d.successors → g.blocks.contains b = true

namespace Lawful

variable {g g' : Graph V}

theorem empty : Lawful (Graph.empty : Graph V) where
  op := by
    intro o d h
    cases h
  successor := by
    intro o d b h
    cases h

/-- Operations that stay alike stay lawful while no block goes. -/
theorem of_alike (h : Lawful g)
    (hops : ∀ o d', g'.ops.find? o = some d' → ∃ d, g.ops.find? o = some d ∧ d.Alike d')
    (hblocks : ∀ b, g.blocks.contains b = true → g'.blocks.contains b = true) : Lawful g' where
  op := by
    intro o d' hd'
    obtain ⟨d, hd, ha⟩ := hops o d' hd'
    exact (h.op hd).of_alike ha
  successor := by
    intro o d' b hd' hb
    obtain ⟨d, hd, ha⟩ := hops o d' hd'
    rw [ha.successors] at hb
    exact hblocks b (h.successor hd hb)

/-- Operations are as before, and no block goes. -/
theorem of_ops_eq (h : Lawful g) (hops : g'.ops = g.ops)
    (hblocks : ∀ b, g.blocks.contains b = true → g'.blocks.contains b = true) : Lawful g' where
  op := by
    rw [hops]
    exact h.op
  successor := by
    intro o d b hd hb
    rw [hops] at hd
    exact hblocks b (h.successor hd hb)

/-- One operation changes, and no block goes. -/
theorem of_modify (h : Lawful g) (o : Op) (f : OpData V → OpData V)
    (hops : g'.ops = g.ops.modify o f) (hf : ∀ d, g.ops.find? o = some d → d.Alike (f d))
    (hblocks : ∀ b, g.blocks.contains b = true → g'.blocks.contains b = true) : Lawful g' := by
  refine h.of_alike (fun o' d' hd' => ?_) hblocks
  rw [hops, Table.find?_modify] at hd'
  by_cases heq : o' = o
  · rw [if_pos heq] at hd'
    obtain ⟨d, hd, rfl⟩ := Option.map_eq_some_iff.1 hd'
    subst heq
    exact ⟨d, hd, hf d hd⟩
  · rw [if_neg heq] at hd'
    exact ⟨d', hd', ⟨rfl, rfl, rfl, rfl, rfl, rfl, rfl⟩⟩

theorem linkOp (h : Lawful g) {d : OpData V} (hd : d.Lawful)
    (hsuccessors : ∀ b ∈ d.successors, g.blocks.contains b = true) (o : Op) :
    Lawful (g.linkOp o d) := by
  have hfind : ∀ {o' d'}, (g.linkOp o d).ops.find? o' = some d' →
      d' = d ∨ g.ops.find? o' = some d' := by
    intro o' d' hd'
    have heq : (g.ops.insert o d).find? o' = some d' := hd'
    rw [Table.find?_insert] at heq
    split at heq
    · exact Or.inl (Option.some.inj heq).symm
    · exact Or.inr heq
  constructor
  case op =>
    intro o' d' hd'
    rcases hfind hd' with rfl | hold
    · exact hd
    · exact h.op hold
  case successor =>
    intro o' d' b hd' hb
    rcases hfind hd' with rfl | hold
    · exact hsuccessors b hb
    · exact h.successor hold hb

/-- A subtree may go when no branch from outside leads to one of its blocks. -/
theorem prune (h : Lawful g) {t : Subtree}
    (hbranch : ∀ {o d b}, g.ops.find? o = some d → o ∉ t.ops → b ∈ d.successors → b ∉ t.blocks)
    (o : Op) (produced : List Value) : Lawful (g.prune o t produced) := by
  have hfind : ∀ {o' d'}, (g.prune o t produced).ops.find? o' = some d' →
      o' ∉ t.ops ∧ ∃ d, g.ops.find? o' = some d ∧ d.Alike d' := by
    intro o' d' hd'
    rw [find?_ops_prune] at hd'
    split at hd'
    · cases hd'
    · rename_i hout
      obtain ⟨d, hd, rfl⟩ := Option.map_eq_some_iff.1 hd'
      exact ⟨hout, d, hd, ⟨rfl, rfl, rfl, rfl, rfl, rfl, Option.isSome_map⟩⟩
  constructor
  case op =>
    intro o' d' hd'
    obtain ⟨-, d, hd, ha⟩ := hfind hd'
    exact (h.op hd).of_alike ha
  case successor =>
    intro o' d' b hd' hb
    obtain ⟨hout, d, hd, ha⟩ := hfind hd'
    rw [ha.successors] at hb
    have hstays := hbranch hd hout hb
    obtain ⟨e, he⟩ := Table.contains_iff.1 (h.successor hd hb)
    rw [Table.contains, find?_blocks_prune, if_neg hstays, he]
    rfl

end Lawful

end Graph

end RegionIR
