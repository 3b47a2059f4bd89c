import RegionIR.Proofs.Edit.Operand
import RegionIR.Proofs.Run.Guarantees

/-!
# Replacing a value everywhere

The uses of a value can be moved to another value in one edit, or operand by
operand along the use list.  The one edit empties the list beforehand and then
trusts it; the others look each slot up in the list before they take it out.
On a graph whose lists and slots agree there is no difference.

Both are compared with a third graph, the one that `Graph.fillSlots` describes,
so that neither has to be followed beside the other.

## Main results

* `ReplacementEnds` — what comes of replacing all uses of a value.
* `Reachable.replacementEnds`
-/

namespace RegionIR

open Edit

variable {V : Type}

/-- The store that a replacement of all uses leads to, and how else it is reached. -/
structure ReplacementEnds (s : Store V) (old new : Value) (uses : List Use) (s' : Store V) :
    Prop where
  done : (replaceAllUses old new).run s = .done () s'
  /-- The operands might as well be set one by one, in the order of the use list. -/
  one_by_one : (Action.forEach uses fun u => setOperand u.user u.index new : Edit V Unit).run s =
    .done () s'
  next : s'.next = s.next
  redirected : old ≠ new → s.graph.Redirected old new uses s'.graph
  /-- Replaced by itself, a value keeps its uses, and even their order. -/
  unchanged : old = new → s'.graph = s.graph

/-- A value that is replaced gives all its uses to the other value, whether at once or one by
one, and nothing else is touched. -/
theorem Reachable.replacementEnds [OpVerifier V] {s : Store V} (h : Reachable s)
    {old new : Value} {d : ValueData} (hold : s.graph.values.find? old = some d)
    (hnew : s.graph.values.contains new = true) : ∃ s', ReplacementEnds s old new d.uses s' := by
  have hs := h.sound
  have huses := Graph.uses?_eq hold
  have hnodup := hs.uses.nodup huses
  have hslots : ∀ u, u ∈ d.uses ↔ s.graph.slot? u = some old := fun u => hs.uses.mem huses
  refine ⟨⟨s.graph.fillSlots old new d.uses, s.next⟩, run_replaceAllUses hs hold hnew,
    run_forEach_setOperand hs hnodup (fun u => (hslots u).1) hnew, rfl, ?_, ?_⟩
  · exact Graph.redirected_fillSlots huses hnodup hslots
  · rintro rfl
    exact Graph.fillSlots_self huses hnodup hslots

/-- The sum, which is an operand of itself, gives way to the argument that it adds to. -/
theorem Reachable.replacementEnds_sample : Reachable Store.sample ∧
    ∃ d s', Store.sample.graph.values.find? ⟨2⟩ = some d ∧ d.uses = [⟨⟨3⟩, 0⟩, ⟨⟨2⟩, 1⟩] ∧
      Store.sample.graph.values.contains ⟨1⟩ = true ∧
      ReplacementEnds Store.sample ⟨2⟩ ⟨1⟩ d.uses s' ∧
      s'.graph.uses? ⟨1⟩ = some [⟨⟨2⟩, 0⟩, ⟨⟨3⟩, 0⟩, ⟨⟨2⟩, 1⟩] := by
  have huses : Store.sample.graph.uses? ⟨2⟩ = some [⟨⟨3⟩, 0⟩, ⟨⟨2⟩, 1⟩] := by decide +kernel
  have hother : Store.sample.graph.uses? ⟨1⟩ = some [⟨⟨2⟩, 0⟩] := by decide +kernel
  have hnew : Store.sample.graph.values.contains ⟨1⟩ = true := by decide +kernel
  obtain ⟨d, hold, hlist⟩ := Option.map_eq_some_iff.1 huses
  obtain ⟨s', hends⟩ := Reachable.replacementEnds reachable_sample hold hnew
  obtain ⟨e, he, helist⟩ := Option.map_eq_some_iff.1 hother
  refine ⟨reachable_sample, d, s', hold, hlist, hnew, hends, ?_⟩
  rw [Graph.uses?, (hends.redirected (by decide)).extended, he, Option.map_some, Option.map_some,
    helist, hlist]
  rfl

end RegionIR
