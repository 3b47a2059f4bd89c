import RegionIR.Proofs.Edit.Erase
import RegionIR.Proofs.Run.Guarantees

/-!
# Erasures in either order

Two subtrees lie apart or one is nested in the other.  What the second of two
erasures collects is what it would have collected first, without what the
first one has taken.  Taken together they therefore cut out the same, and by
`Graph.cut_cut` that is all that the graph knows of them.

Whether the second one is done is a question about the world outside.  An
erasure takes users away and never adds one, so what was loose stays loose.
The converse is for a nested subtree: if it could go, nothing but the subtree
around it had a hold on it.

## Main results

* `Graph.usedOutside_prune_iff`, `Graph.branchedOutside_prune_iff` — the world outside, after a cut.
* `Graph.InTurn` — the collections of two erasures in a row.
* `Graph.InTurn.prune_prune` — two cuts in a row are the cut of both.
* `Graph.InTurn.loose_rest`, `Graph.InTurn.loose_of_rest` — what the first erasure means for the
  second one.
* `ErasuresAgree` — what comes of two erasures.
* `Reachable.erasuresAgree`
-/

namespace RegionIR

open Edit

variable {V : Type}

namespace Graph

/-! ## The world outside, after a cut -/

section Outside

variable {g : Graph V} {o : Op} {gone t : Subtree} {produced : List Value}

/-- A cut leaves the uses by operations that stay, of values that stay. -/
theorem usedOutside_prune_iff {v : Value} {user : Op} :
    (g.prune o gone produced).UsedOutside t v user ↔
      v ∉ produced ∧ user ∉ gone.ops ∧ g.UsedOutside t v user := by
  unfold UsedOutside
  rw [find?_values_prune]
  by_cases hv : v ∈ produced
  · simp [hv]
  · rw [if_neg hv]
    constructor
    · rintro ⟨hout, d, hd, u, hu, rfl⟩
      obtain ⟨e, he, rfl⟩ := Option.map_eq_some_iff.1 hd
      obtain ⟨hu, hleft⟩ := List.mem_filter.1 hu
      exact ⟨hv, of_decide_eq_true hleft, hout, e, he, u, hu, rfl⟩
    · rintro ⟨-, hleft, hout, d, hd, u, hu, rfl⟩
      refine ⟨hout, _, Option.map_eq_some_iff.2 ⟨d, hd, rfl⟩, u, ?_, rfl⟩
      exact List.mem_filter.2 ⟨hu, decide_eq_true hleft⟩

/-- A cut leaves the branches of operations that stay. -/
theorem branchedOutside_prune_iff {b : Block} {user : Op} :
    (g.prune o gone produced).BranchedOutside t b user ↔
      user ∉ gone.ops ∧ g.BranchedOutside t b user := by
  unfold BranchedOutside
  rw [find?_ops_prune]
  by_cases huser : user ∈ gone.ops
  · simp [huser]
  · rw [if_neg huser, and_iff_right huser]
    refine and_congr_right fun _ => and_congr_right fun _ => ?_
    constructor
    · rintro ⟨d, hd, hbranch⟩
      obtain ⟨e, he, rfl⟩ := Option.map_eq_some_iff.1 hd
      exact ⟨e, he, hbranch⟩
    · rintro ⟨d, hd, hbranch⟩
      exact ⟨_, Option.map_eq_some_iff.2 ⟨d, hd, rfl⟩, hbranch⟩

end Outside

/-! ## Two collections in turn -/

/-- What two erasures collect, each on its own, and what the second one collects after the
first. -/
structure InTurn (g : Graph V) (a b : Op) (ta tb t : Subtree) (pa pb produced : List Value) :
    Prop where
  owned : g.Owned
  first : g.Collected a ta pa
  second : g.Collected b tb pb
  left : b ∉ ta.ops
  rest : (g.prune a ta pa).Collected b t produced

namespace InTurn

variable {g : Graph V} {a b : Op} {ta tb t : Subtree} {pa pb produced : List Value}

/-- The second walk meets what the first one has left. -/
theorem contains_iff (h : g.InTurn a b ta tb t pa pb produced) (x : Node) :
    t.Contains x ↔ tb.Contains x ∧ ¬ ta.Contains x := by
  have hleft : ¬ ta.Contains (.op b) := h.left
  rw [h.rest.contains, h.second.contains,
    within_prune_iff h.owned (hangs_of_contains h.first.contains) pa hleft]

theorem mem_ops_iff (h : g.InTurn a b ta tb t pa pb produced) (o : Op) :
    o ∈ t.ops ↔ o ∈ tb.ops ∧ o ∉ ta.ops :=
  h.contains_iff (.op o)

theorem mem_blocks_iff (h : g.InTurn a b ta tb t pa pb produced) (x : Block) :
    x ∈ t.blocks ↔ x ∈ tb.blocks ∧ x ∉ ta.blocks :=
  h.contains_iff (.block x)

theorem mem_of_mem_rest (h : g.InTurn a b ta tb t pa pb produced) {v : Value}
    (hv : v ∈ produced) : v ∈ pb := by
  rw [h.rest.mem] at hv
  rw [h.second.mem]
  rcases hv with ⟨o, ho, hresult⟩ | ⟨x, hx, harg⟩
  · obtain ⟨hin, hleft⟩ := (h.mem_ops_iff o).1 ho
    rw [resultsOf_prune, if_neg hleft] at hresult
    exact Or.inl ⟨o, hin, hresult⟩
  · obtain ⟨hin, hleft⟩ := (h.mem_blocks_iff x).1 hx
    rw [argsOf_prune, if_neg hleft] at harg
    exact Or.inr ⟨x, hin, harg⟩

theorem mem_or_mem_rest (h : g.InTurn a b ta tb t pa pb produced) {v : Value} (hv : v ∈ pb) :
    v ∈ pa ∨ v ∈ produced := by
  rw [h.second.mem] at hv
  rw [h.first.mem, h.rest.mem]
  rcases hv with ⟨o, ho, hresult⟩ | ⟨x, hx, harg⟩
  · by_cases hin : o ∈ ta.ops
    · exact Or.inl (Or.inl ⟨o, hin, hresult⟩)
    · refine Or.inr (Or.inl ⟨o, (h.mem_ops_iff o).2 ⟨ho, hin⟩, ?_⟩)
      rwa [resultsOf_prune, if_neg hin]
  · by_cases hin : x ∈ ta.blocks
    · exact Or.inl (Or.inr ⟨x, hin, harg⟩)
    · refine Or.inr (Or.inr ⟨x, (h.mem_blocks_iff x).2 ⟨hx, hin⟩, ?_⟩)
      rwa [argsOf_prune, if_neg hin]

/-- Both cuts together are the cut of both collections. -/
theorem prune_prune (h : g.InTurn a b ta tb t pa pb produced) :
    (g.prune a ta pa).prune b t produced = g.cut (ta.append tb) (pa ++ pb) := by
  have hangs := hangs_of_contains h.first.contains
  rw [(h.owned.prune hangs pa).prune_eq_cut (hangs_of_contains h.rest.contains),
    h.owned.prune_eq_cut hangs, cut_cut]
  refine cut_congr g (fun x => ?_) fun v => ?_
  · rw [Subtree.contains_append, Subtree.contains_append, h.contains_iff]
    by_cases hin : ta.Contains x <;> simp [hin]
  · rw [List.mem_append, List.mem_append]
    constructor
    · exact Or.imp_right h.mem_of_mem_rest
    · rintro (hv | hv)
      · exact Or.inl hv
      · exact h.mem_or_mem_rest hv

/-- An erasure takes users and branches away and adds none. -/
theorem loose_rest (h : g.InTurn a b ta tb t pa pb produced) (hloose : g.Loose tb pb) :
    (g.prune a ta pa).Loose t produced where
  unused := by
    intro v hv user hused
    obtain ⟨-, hleft, hout, hentry⟩ := usedOutside_prune_iff.1 hused
    have hout' : user ∉ tb.ops := fun hin => hout ((h.mem_ops_iff user).2 ⟨hin, hleft⟩)
    exact hloose.unused v (h.mem_of_mem_rest hv) user ⟨hout', hentry⟩
  unbranched := by
    intro x user hbranched
    obtain ⟨hleft, hout, hx, hentry⟩ := branchedOutside_prune_iff.1 hbranched
    have hout' : user ∉ tb.ops := fun hin => hout ((h.mem_ops_iff user).2 ⟨hin, hleft⟩)
    exact hloose.unbranched x user ⟨hout', ((h.mem_blocks_iff x).1 hx).1, hentry⟩

/-- Where a nested subtree was loose and the rest is loose without it, the whole was loose. -/
theorem loose_of_rest (h : g.InTurn a b ta tb t pa pb produced)
    (hnested : ∀ o ∈ ta.ops, o ∈ tb.ops) (hinner : g.Loose ta pa)
    (hrest : (g.prune a ta pa).Loose t produced) : g.Loose tb pb where
  unused := by
    rintro v hv user ⟨hout, hentry⟩
    have hleft : user ∉ ta.ops := mt (hnested user) hout
    have hout' : user ∉ t.ops := fun hin => hout ((h.mem_ops_iff user).1 hin).1
    by_cases hin : v ∈ pa
    · exact hinner.unused v hin user ⟨hleft, hentry⟩
    · refine hrest.unused v ((h.mem_or_mem_rest hv).resolve_left hin) user ?_
      exact usedOutside_prune_iff.2 ⟨hin, hleft, hout', hentry⟩
  unbranched := by
    rintro x user ⟨hout, hx, hentry⟩
    have hleft : user ∉ ta.ops := mt (hnested user) hout
    have hout' : user ∉ t.ops := fun hin => hout ((h.mem_ops_iff user).1 hin).1
    by_cases hin : x ∈ ta.blocks
    · exact hinner.unbranched x user ⟨hleft, hin, hentry⟩
    · refine hrest.unbranched x user (branchedOutside_prune_iff.2 ⟨hleft, hout', ?_, hentry⟩)
      exact (h.mem_blocks_iff x).2 ⟨hx, hin⟩

end InTurn

/-- A collection that another one includes adds nothing to its cut. -/
theorem Collected.cut_append_of_nested {g : Graph V} {a b : Op} {ta tb : Subtree}
    {pa pb : List Value} (howned : g.Owned) (hinner : g.Collected b tb pb)
    (houter : g.Collected a ta pa) (hnested : ∀ x, tb.Contains x → ta.Contains x) :
    g.cut (tb.append ta) (pb ++ pa) = g.prune a ta pa := by
  have hproduced : ∀ v ∈ pb, v ∈ pa := by
    intro v hv
    rw [hinner.mem] at hv
    rw [houter.mem]
    rcases hv with ⟨o, ho, hresult⟩ | ⟨x, hx, harg⟩
    · exact Or.inl ⟨o, hnested (.op o) ho, hresult⟩
    · exact Or.inr ⟨x, hnested (.block x) hx, harg⟩
  rw [howned.prune_eq_cut (hangs_of_contains houter.contains)]
  refine g.cut_congr (fun x => ?_) fun v => ?_
  · rw [Subtree.contains_append, or_iff_right_of_imp (hnested x)]
  · rw [List.mem_append, or_iff_right_of_imp (hproduced v)]

end Graph

/-! ## The second erasure -/

variable {s : Store V} {a b : Op} {ta tb : Subtree} {pa pb : List Value}

/-- The second erasure is done where it leaves a loose subtree, and then both cuts are made. -/
theorem Store.Sound.exists_inTurn (hs : s.Sound) (hb : s.graph.ops.contains b = true)
    (hfirst : s.graph.Collected a ta pa) (hsecond : s.graph.Collected b tb pb)
    (hleft : b ∉ ta.ops) (hloose : s.graph.Loose ta pa) :
    ∃ t produced, s.graph.InTurn a b ta tb t pa pb produced ∧
      ∀ s', (eraseOp b).run ⟨s.graph.prune a ta pa, s.next⟩ = .done () s' ↔
        (s.graph.prune a ta pa).Loose t produced ∧
          s' = ⟨s.graph.cut (ta.append tb) (pa ++ pb), s.next⟩ := by
  have hs' : (⟨s.graph.prune a ta pa, s.next⟩ : Store V).Sound :=
    hs.leads (Store.Leads.change (.refl s)
      (.prune (hfirst.cuttable hloose.unused hloose.unbranched)))
  have hstill : (s.graph.prune a ta pa).ops.contains b = true := by
    rw [Table.contains, Graph.find?_ops_prune, if_neg hleft, Option.isSome_map]
    exact hb
  obtain ⟨t, produced, hrest⟩ := hs'.exists_collected hstill
  have hturn : s.graph.InTurn a b ta tb t pa pb produced :=
    ⟨hs.owned, hfirst, hsecond, hleft, hrest⟩
  refine ⟨t, produced, hturn, fun s' => ?_⟩
  rw [run_eraseOp_eq_done_iff hs' hstill hrest]
  dsimp only
  rw [hturn.prune_prune]

section Apart

variable (hs : s.Sound) (ha : s.graph.ops.contains a = true)
  (hb : s.graph.ops.contains b = true) (hfirst : s.graph.Collected a ta pa)
  (hsecond : s.graph.Collected b tb pb) (hleft : b ∉ ta.ops)
include hs ha hb hfirst hsecond hleft

theorem eq_of_run_eraseOp_eraseOp {s' : Store V}
    (hrun : (do eraseOp a; eraseOp b : Edit V Unit).run s = .done () s') :
    s' = ⟨s.graph.cut (ta.append tb) (pa ++ pb), s.next⟩ := by
  obtain ⟨_, sa, hruna, hrunb⟩ := Action.run_bind_eq_done_iff.1 hrun
  obtain ⟨hloose, rfl⟩ := (run_eraseOp_eq_done_iff hs ha hfirst).1 hruna
  obtain ⟨t, produced, -, hdone⟩ := hs.exists_inTurn hb hfirst hsecond hleft hloose
  exact ((hdone s').1 hrunb).2

/-- An operation that could go first can go second. -/
theorem run_eraseOp_eraseOp (hloosea : s.graph.Loose ta pa) (hlooseb : s.graph.Loose tb pb) :
    (do eraseOp a; eraseOp b : Edit V Unit).run s =
      .done () ⟨s.graph.cut (ta.append tb) (pa ++ pb), s.next⟩ := by
  obtain ⟨t, produced, hturn, hdone⟩ := hs.exists_inTurn hb hfirst hsecond hleft hloosea
  have hruna := (run_eraseOp_eq_done_iff hs ha hfirst).2 ⟨hloosea, rfl⟩
  exact Action.run_bind_eq_done_iff.2 ⟨(), _, hruna, (hdone _).2 ⟨hturn.loose_rest hlooseb, rfl⟩⟩

end Apart

/-! ## The guarantee -/

/-- What comes of the erasures of two operations. -/
structure ErasuresAgree (s : Store V) (a b : Op) : Prop where
  /-- To take out something nested beforehand makes no difference in the end. -/
  nested : s.graph.Encloses (.op a) (.op b) → ∀ {sb}, (eraseOp b).run s = .done () sb →
    ∀ s', (eraseOp a).run sb = .done () s' ↔ (eraseOp a).run s = .done () s'
  /-- Where both orders come to an end, it is the same end. -/
  apart : ¬ s.graph.Within (.op b) (.op a) → ¬ s.graph.Within (.op a) (.op b) →
    ∀ {s₁ s₂}, (do eraseOp a; eraseOp b : Edit V Unit).run s = .done () s₁ →
      (do eraseOp b; eraseOp a : Edit V Unit).run s = .done () s₂ → s₁ = s₂
  /-- Both orders do come to an end where each of the operations can be erased by itself. -/
  diamond : ¬ s.graph.Within (.op b) (.op a) → ¬ s.graph.Within (.op a) (.op b) →
    ∀ {sa sb}, (eraseOp a).run s = .done () sa → (eraseOp b).run s = .done () sb →
      ∃ s', (do eraseOp a; eraseOp b : Edit V Unit).run s = .done () s' ∧
        (do eraseOp b; eraseOp a : Edit V Unit).run s = .done () s'

/-- In whichever order two operations are erased, what is left is the same. -/
theorem Reachable.erasuresAgree [OpVerifier V] (h : Reachable s)
    (ha : s.graph.ops.contains a = true) (hb : s.graph.ops.contains b = true) :
    ErasuresAgree s a b := by
  have hs := h.sound
  obtain ⟨ta, pa, hca⟩ := hs.exists_collected ha
  obtain ⟨tb, pb, hcb⟩ := hs.exists_collected hb
  constructor
  case nested =>
    intro hnested sb hrun s'
    obtain ⟨hinner, rfl⟩ := (run_eraseOp_eq_done_iff hs hb hcb).1 hrun
    have hsub : ∀ x, tb.Contains x → ta.Contains x := by
      intro x hx
      exact (hca.contains x).2 (hnested.to_reflTransGen.trans ((hcb.contains x).1 hx))
    have hleft : a ∉ tb.ops := fun hin =>
      hs.acyclic (.op a) (hnested.trans_left ((hcb.contains (.op a)).1 hin))
    obtain ⟨t, produced, hturn, hdone⟩ := hs.exists_inTurn ha hcb hca hleft hinner
    rw [hdone, run_eraseOp_eq_done_iff hs ha hca, hcb.cut_append_of_nested hs.owned hca hsub]
    refine and_congr_left fun _ => ⟨fun hrest => ?_, hturn.loose_rest⟩
    exact hturn.loose_of_rest (fun o => hsub (.op o)) hinner hrest
  case apart =>
    intro hba hab s₁ s₂ hrun₁ hrun₂
    have hleftb : b ∉ ta.ops := mt (hca.contains (.op b)).1 hba
    have hlefta : a ∉ tb.ops := mt (hcb.contains (.op a)).1 hab
    rw [eq_of_run_eraseOp_eraseOp hs ha hb hca hcb hleftb hrun₁,
      eq_of_run_eraseOp_eraseOp hs hb ha hcb hca hlefta hrun₂, s.graph.cut_append_comm]
  case diamond =>
    intro hba hab sa sb hruna hrunb
    have hleftb : b ∉ ta.ops := mt (hca.contains (.op b)).1 hba
    have hlefta : a ∉ tb.ops := mt (hcb.contains (.op a)).1 hab
    have hloosea := ((run_eraseOp_eq_done_iff hs ha hca).1 hruna).1
    have hlooseb := ((run_eraseOp_eq_done_iff hs hb hcb).1 hrunb).1
    refine ⟨_, run_eraseOp_eraseOp hs ha hb hca hcb hleftb hloosea hlooseb, ?_⟩
    rw [s.graph.cut_append_comm]
    exact run_eraseOp_eraseOp hs hb ha hcb hca hlefta hlooseb hloosea

/-- The small run with one more operation, at the end of the block. -/
def Store.sampleWithNote : Store DialectVerifier :=
  Command.play [.create { name := "test.note", parent := some ⟨1⟩ }] Store.sample

/-- The terminator and the note go in either order, and the terminator before the function. -/
theorem Reachable.erasuresAgree_sample : Reachable Store.sampleWithNote ∧
    Store.sampleWithNote.graph.ops.contains ⟨1⟩ = true ∧
    Store.sampleWithNote.graph.ops.contains ⟨3⟩ = true ∧
    Store.sampleWithNote.graph.ops.contains ⟨5⟩ = true ∧
    (∃ sb, (eraseOp ⟨3⟩).run Store.sampleWithNote = .done () sb ∧
      (eraseOp ⟨1⟩).run sb = .done () ⟨.empty, Store.sampleWithNote.next⟩) ∧
    ∃ s', (do eraseOp ⟨3⟩; eraseOp ⟨5⟩).run Store.sampleWithNote = .done () s' ∧
      (do eraseOp ⟨5⟩; eraseOp ⟨3⟩).run Store.sampleWithNote = .done () s' ∧
      s'.graph.opsIn ⟨1⟩ = [⟨2⟩] := by
  have hreachable : Reachable Store.sampleWithNote := reachable_sample.play _
  have hfunction : Store.sampleWithNote.graph.ops.contains ⟨1⟩ = true := by decide +kernel
  have hyield : Store.sampleWithNote.graph.ops.contains ⟨3⟩ = true := by decide +kernel
  have hnote : Store.sampleWithNote.graph.ops.contains ⟨5⟩ = true := by decide +kernel
  have hrunyield : (eraseOp ⟨3⟩).run Store.sampleWithNote =
      .done () ⟨Store.sampleWithNote.graph.prune ⟨3⟩ ⟨[⟨3⟩], [], []⟩ [],
        Store.sampleWithNote.next⟩ := by
    decide +kernel
  have hrunnote : (eraseOp ⟨5⟩).run Store.sampleWithNote =
      .done () ⟨Store.sampleWithNote.graph.prune ⟨5⟩ ⟨[⟨5⟩], [], []⟩ [],
        Store.sampleWithNote.next⟩ := by
    decide +kernel
  have hrunfunction : (eraseOp ⟨1⟩).run Store.sampleWithNote =
      .done () ⟨.empty, Store.sampleWithNote.next⟩ := by decide +kernel
  refine ⟨hreachable, hfunction, hyield, hnote, ⟨_, hrunyield, ?_⟩, ?_⟩
  · have hnested : Store.sampleWithNote.graph.Encloses (.op ⟨1⟩) (.op ⟨3⟩) :=
      .tail (.tail (.single (.region (r := ⟨1⟩) (by decide +kernel)))
        (.block (b := ⟨1⟩) (by decide +kernel))) (.op (by decide +kernel))
    have hends := Reachable.erasuresAgree hreachable hfunction hyield
    exact (hends.nested hnested hrunyield _).2 hrunfunction
  · -- Neither of the two has a region, so neither is within the other.
    have hnotein : ¬ Store.sampleWithNote.graph.Within (.op ⟨5⟩) (.op ⟨3⟩) := by
      rw [Graph.within_op_iff_of_no_regions (by decide +kernel)]
      decide
    have hyieldin : ¬ Store.sampleWithNote.graph.Within (.op ⟨3⟩) (.op ⟨5⟩) := by
      rw [Graph.within_op_iff_of_no_regions (by decide +kernel)]
      decide
    have hends := Reachable.erasuresAgree hreachable hyield hnote
    obtain ⟨s', hrun, hrun'⟩ := hends.diamond hnotein hyieldin hrunyield hrunnote
    refine ⟨s', hrun, hrun', ?_⟩
    have hboth : (do eraseOp ⟨3⟩; eraseOp ⟨5⟩).run Store.sampleWithNote =
        .done () ⟨(Store.sampleWithNote.graph.prune ⟨3⟩ ⟨[⟨3⟩], [], []⟩ []).prune ⟨5⟩
          ⟨[⟨5⟩], [], []⟩ [], Store.sampleWithNote.next⟩ := by
      decide +kernel
    rw [(Outcome.done.inj (hrun.symm.trans hboth)).2]
    decide +kernel

end RegionIR
