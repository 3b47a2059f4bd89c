import RegionIR.Dialect
import RegionIR.Proofs.Run.Reachable

/-!
# What a refusal leaves behind

A command that is refused has either changed nothing yet, or it has undone
what it did.  There is one exception: appending to a module whose body has not
been made yet makes the body first, and keeps it when the operation turns out
to be one that can not be appended.

## Main results

* `Reachable.graph_of_refused` — commands that leave no trace.
* `Reachable.graph_of_refused_append` — what is left of an append.
* `append_leaves_body` — an append that is refused and leaves its body.
-/

namespace RegionIR

variable {V : Type} [OpVerifier V] {s s' : Store V} {e : EditError}

/-! ## Commands that leave no trace -/

/-- After a refusal the graph is as before, and only counters may have advanced. -/
theorem Reachable.graph_of_refused (h : Reachable s) {c : Command V}
    (hc : ∀ m o, c ≠ .appendToModule m o) (hrun : c.edit.run s = .refused e s') :
    s'.graph = s.graph ∧ s.next ≤ s'.next := by
  have hends := Command.atomicFrom h.sound hc
  rw [Edit.AtomicFrom, hrun] at hends
  exact ⟨hends.graph, hends.next⟩

/-- A function, and a block that no region owns. -/
def Store.freeBlock : Store DialectVerifier :=
  Command.play [.newRegion, .create { name := "test.func", regions := [⟨1⟩] }, .newBlock] {}

/-- A new region is given up when a block is to be placed in it twice. -/
theorem Reachable.graph_of_refused_freeBlock : Reachable Store.freeBlock ∧
    ∃ e s', (Command.newRegionWith [⟨1⟩, ⟨1⟩]).edit.run Store.freeBlock = .refused e s' ∧
      s'.graph = Store.freeBlock.graph ∧ s'.next ≠ Store.freeBlock.next := by
  have hreach : Reachable Store.freeBlock := (Reachable.start {} (by decide)).play _
  have hrun : (Command.newRegionWith [⟨1⟩, ⟨1⟩]).edit.run Store.freeBlock =
      .refused (.blockAlreadyOwned ⟨1⟩ ⟨2⟩)
        ⟨Store.freeBlock.graph, { Store.freeBlock.next with region := 3 }⟩ := by decide +kernel
  obtain ⟨hgraph, -⟩ := hreach.graph_of_refused (fun _ _ heq => by cases heq) hrun
  exact ⟨hreach, _, _, hrun, hgraph, by decide +kernel⟩

/-! ## The append that leaves a body -/

open Edit

/-- An append that is refused leaves the graph as it was just if the module had a body.  Where it
had none, a new body without operations is left in the first region of the module. -/
theorem Reachable.graph_of_refused_append (h : Reachable s) {m o : Op}
    (hrun : (appendToModule m o).run s = .refused e s') :
    (s'.graph = s.graph ↔ ∃ b, s.graph.moduleBody? m = .ok (some b)) ∧
      (s.graph.moduleBody? m = .ok none → ∃ r, (s.graph.regionsOf m).head? = some r ∧
        s'.graph = s.graph.addBody r ⟨s.next.block⟩) := by
  have hends := ends_appendToModule h.sound m o
  rw [hrun] at hends
  obtain ⟨-, hleft⟩ := hends
  cases hleft with
  | found hbody hg =>
      refine ⟨iff_of_true hg ⟨_, hbody⟩, fun hnone => ?_⟩
      cases hnone.symm.trans hbody
  | @made r hbody hr hg =>
      refine ⟨iff_of_false (fun heq => ?_) ?_, fun _ => ⟨r, hr, hg⟩⟩
      · have hfresh := h.sound.bounded.fresh_block (b := ⟨s.next.block⟩) (Nat.le_refl _)
        have hlive := Graph.contains_addBody s.graph r ⟨s.next.block⟩
        rw [← hg, heq, Table.contains, hfresh] at hlive
        cases hlive
      · rintro ⟨b, hsome⟩
        cases hsome.symm.trans hbody

/-- A new module, and an operation in a block that is apart from it. -/
def Store.apart : Store DialectVerifier :=
  Command.play [.newModule, .newBlock, .create { name := "test.op", parent := some ⟨1⟩ }] {}

theorem reachable_apart : Reachable Store.apart := (Reachable.start {} (by decide)).play _

theorem run_appendToModule_apart : (appendToModule ⟨1⟩ ⟨2⟩).run Store.apart =
    .refused (.opAlreadyOwned ⟨2⟩ ⟨1⟩)
      ⟨Store.apart.graph.addBody ⟨1⟩ ⟨2⟩, { Store.apart.next with block := 3 }⟩ := by
  decide +kernel

theorem Reachable.graph_of_refused_append_apart : Reachable Store.apart ∧
    ∃ e s', (appendToModule ⟨1⟩ ⟨2⟩).run Store.apart = .refused e s' ∧
      s'.graph ≠ Store.apart.graph ∧ ∃ r, s'.graph = Store.apart.graph.addBody r ⟨2⟩ := by
  obtain ⟨hiff, hleft⟩ := reachable_apart.graph_of_refused_append run_appendToModule_apart
  have hbody : Store.apart.graph.moduleBody? ⟨1⟩ = .ok none := by rfl
  obtain ⟨r, -, hg⟩ := hleft hbody
  refine ⟨reachable_apart, _, _, run_appendToModule_apart, fun heq => ?_, r, hg⟩
  obtain ⟨b, hsome⟩ := hiff.1 heq
  cases hbody.symm.trans hsome

/-- The operation is in a block already, and the module has a body all the same. -/
theorem append_leaves_body : ¬ ∀ (s s' : Store DialectVerifier) (m o : Op) (e : EditError),
    Reachable s → s.graph.regionsOf m ≠ [] → s.graph.ops.contains o = true →
      (appendToModule m o).run s = .refused e s' → s'.graph = s.graph := by
  intro hall
  have hsame := hall _ _ _ _ _ reachable_apart (by decide +kernel) (by decide +kernel)
    run_appendToModule_apart
  exact absurd hsame (by decide +kernel)

end RegionIR
