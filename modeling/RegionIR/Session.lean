import RegionIR.Context.Basic
import RegionIR.Edit.Basic
import RegionIR.Journal

/-!
# Sessions

A session holds any number of contexts and graphs and one journal. All
graphs draw their handles from the same counters, so no handle is live in
two of them. Work on one graph or context leaves the others alone.
-/

namespace RegionIR

structure Session (V : Type) where
  contexts : Nat → Context := fun i => { name := i }
  graphs : Nat → Graph V := fun _ => {}
  next : NextHandles := {}
  journal : Journal := {}

namespace Session

variable {V ε α : Type}

/-- The session with a context replaced. -/
def withContext (s : Session V) (i : Nat) (c : Context) : Session V :=
  { s with contexts := fun j => if j = i then c else s.contexts j }

/-- The session with a graph replaced, and the counters with it. -/
def withStore (s : Session V) (i : Nat) (t : Store V) : Session V :=
  { s with
    graphs := fun j => if j = i then t.graph else s.graphs j
    next := t.next }

/-- A graph together with the counters. -/
def store (s : Session V) (i : Nat) : Store V := ⟨s.graphs i, s.next⟩

/-- An action on one of the contexts. -/
def onContext (i : Nat) (a : Action Context ε α) : Action (Session V) ε α := fun s =>
  (a (s.contexts i)).mapState (s.withContext i)

/-- An edit of one of the graphs. -/
def onGraph (i : Nat) (e : Edit V α) : Action (Session V) EditError α := fun s =>
  (e (s.store i)).mapState (s.withStore i)

/-- A change of the journal. -/
def onJournal (f : Journal → Journal) : Action (Session V) ε Unit :=
  .modify fun s => { s with journal := f s.journal }

end Session

end RegionIR
