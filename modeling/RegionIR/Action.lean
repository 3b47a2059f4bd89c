import RegionIR.Fault

/-!
# Actions on a state

An action reads and changes a state of type `σ`. It ends in one of three
ways: it is done, with a result; it refuses, with an error of type `ε`; or
it meets a fault. A refusal keeps the state that the action had reached, so
that "a refused action changes nothing" is a property that an action has to
earn, by checking first or by undoing what it did.
-/

namespace RegionIR

/-- The three ends of an action. -/
inductive Outcome (σ ε α : Type) where
  | done (result : α) (state : σ)
  | refused (error : ε) (state : σ)
  | fault (cause : Fault)
  deriving DecidableEq

/-- The outcome with its state placed in a larger one. -/
def Outcome.mapState {σ σ' ε α : Type} (f : σ → σ') : Outcome σ ε α → Outcome σ' ε α
  | .done x s => .done x (f s)
  | .refused e s => .refused e (f s)
  | .fault c => .fault c

/-- A step from a state to an outcome. -/
def Action (σ ε α : Type) : Type := σ → Outcome σ ε α

namespace Action

variable {σ ε ε' α β : Type}

/-- The outcome of an action that starts in the given state. -/
def run (a : Action σ ε α) (s : σ) : Outcome σ ε α := a s

protected def pure (x : α) : Action σ ε α := fun s => .done x s

/-- The second action starts where the first is done. -/
protected def bind (a : Action σ ε α) (f : α → Action σ ε β) : Action σ ε β := fun s =>
  match a s with
  | .done x s' => f x s'
  | .refused e s' => .refused e s'
  | .fault c => .fault c

instance : Monad (Action σ ε) where
  pure := Action.pure
  bind := Action.bind

/-- The present state. -/
def get : Action σ ε σ := fun s => .done s s

def modify (f : σ → σ) : Action σ ε Unit := fun s => .done () (f s)

/-- Refuses in the present state. -/
def refuse (e : ε) : Action σ ε α := fun s => .refused e s

/-- Refuses if there is an error. -/
def refuseIf : Option ε → Action σ ε Unit
  | none => Action.pure ()
  | some e => refuse e

/-- A computation that may meet a fault and changes nothing. -/
def ofExcept : Except Fault α → Action σ ε α
  | .ok x => fun s => .done x s
  | .error c => fun _ => .fault c

/-- What a computation on the present state yields. -/
def read (f : σ → Except Fault α) : Action σ ε α := fun s =>
  match f s with
  | .ok x => .done x s
  | .error c => .fault c

/-- Goes on after a refusal, with the error as result. -/
def attempt (a : Action σ ε α) : Action σ ε' (Except ε α) := fun s =>
  match a s with
  | .done x s' => .done (.ok x) s'
  | .refused e s' => .done (.error e) s'
  | .fault c => .fault c

/-- The same action with its errors in another type. -/
def mapError (f : ε → ε') (a : Action σ ε α) : Action σ ε' α := fun s =>
  match a s with
  | .done x s' => .done x s'
  | .refused e s' => .refused (f e) s'
  | .fault c => .fault c

/-- If `a` refuses, runs `undo` and then refuses with the same error. -/
def orUndo (a : Action σ ε α) (undo : Action σ ε Unit) : Action σ ε α := do
  match ← a.attempt with
  | .ok x => return x
  | .error e =>
    undo
    refuse e

/-- Runs an action for every entry of a list, in order. -/
def forEach : List α → (α → Action σ ε Unit) → Action σ ε Unit
  | [], _ => Action.pure ()
  | x :: rest, f => (f x).bind fun _ => forEach rest f

/-- The results of an action for every entry of a list, in order. -/
def collect : List α → (α → Action σ ε β) → Action σ ε (List β)
  | [], _ => Action.pure []
  | x :: rest, f => (f x).bind fun y => (collect rest f).bind fun ys => Action.pure (y :: ys)

/-! ## What each step does to a state -/

@[simp] theorem run_pure (x : α) (s : σ) :
    (pure x : Action σ ε α).run s = .done x s := rfl

theorem run_bind (a : Action σ ε α) (f : α → Action σ ε β) (s : σ) :
    (a >>= f).run s =
      match a.run s with
      | .done x s' => (f x).run s'
      | .refused e s' => .refused e s'
      | .fault c => .fault c := rfl

@[simp] theorem run_get (s : σ) : (get : Action σ ε σ).run s = .done s s := rfl

@[simp] theorem run_modify (f : σ → σ) (s : σ) :
    (modify f : Action σ ε Unit).run s = .done () (f s) := rfl

@[simp] theorem run_refuse (e : ε) (s : σ) :
    (refuse e : Action σ ε α).run s = .refused e s := rfl

@[simp] theorem run_ofExcept_ok (x : α) (s : σ) :
    (ofExcept (.ok x) : Action σ ε α).run s = .done x s := rfl

@[simp] theorem run_ofExcept_error (c : Fault) (s : σ) :
    (ofExcept (.error c) : Action σ ε α).run s = .fault c := rfl

theorem run_read_of_ok {f : σ → Except Fault α} {s : σ} {x : α} (h : f s = .ok x) :
    (read f : Action σ ε α).run s = .done x s := by
  show (match f s with | .ok x => Outcome.done x s | .error c => .fault c) = .done x s
  rw [h]

theorem run_read_of_error {f : σ → Except Fault α} {s : σ} {c : Fault} (h : f s = .error c) :
    (read f : Action σ ε α).run s = .fault c := by
  show (match f s with | .ok x => Outcome.done x s | .error c => .fault c) = .fault c
  rw [h]

@[simp] theorem refuseIf_none : (refuseIf none : Action σ ε Unit) = pure () := rfl

@[simp] theorem refuseIf_some (e : ε) : (refuseIf (some e) : Action σ ε Unit) = refuse e := rfl

@[simp] theorem forEach_nil (f : α → Action σ ε Unit) : forEach [] f = pure () := rfl

@[simp] theorem forEach_cons (x : α) (rest : List α) (f : α → Action σ ε Unit) :
    forEach (x :: rest) f = f x >>= fun _ => forEach rest f := rfl

@[simp] theorem collect_nil (f : α → Action σ ε β) : collect [] f = pure [] := rfl

@[simp] theorem collect_cons (x : α) (rest : List α) (f : α → Action σ ε β) :
    collect (x :: rest) f = f x >>= fun y => collect rest f >>= fun ys => pure (y :: ys) := rfl

/-- An action that is done needs no undoing; a refusal is undone and then repeated. -/
theorem run_orUndo (a : Action σ ε α) (undo : Action σ ε Unit) (s : σ) :
    (a.orUndo undo).run s =
      match a.run s with
      | .done x s' => .done x s'
      | .refused e s' => (undo >>= fun _ => refuse e : Action σ ε α).run s'
      | .fault c => .fault c := by
  unfold orUndo
  rw [run_bind]
  simp only [attempt, run]
  cases a s <;> rfl

instance : LawfulMonad (Action σ ε) := LawfulMonad.mk' _
  (fun a => by
    funext s
    show Action.bind a Action.pure s = a s
    unfold Action.bind Action.pure
    cases a s <;> rfl)
  (fun _ _ => rfl)
  (fun a f g => by
    funext s
    show Action.bind (Action.bind a f) g s = Action.bind a (fun x => Action.bind (f x) g) s
    unfold Action.bind
    cases a s <;> rfl)

end Action

end RegionIR
