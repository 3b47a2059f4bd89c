import RegionIR.Fault

/-!
# Rules and their failures

A rule is a named check. Checking a target runs every rule, in order, and
keeps a record of each one that fails; an error is the list of these records
and is never empty. A check may meet a fault, which ends the whole run.
-/

namespace RegionIR

/-- The record of one failed rule. -/
structure RuleFailure where
  rule : String
  message : String
  deriving DecidableEq, Repr, Inhabited

/-- A named check, which describes the problem if the target fails it. -/
structure Rule (τ : Type) where
  name : String
  check : τ → Except Fault (Option String)

namespace Rule

variable {τ : Type}

/-- A rule that meets no fault: the target fails it with `message` iff it is `broken`. -/
def ofTest (name message : String) (broken : τ → Bool) : Rule τ :=
  ⟨name, fun target => .ok (if broken target then some message else none)⟩

/-- The failures of a list of rules, in the order of the rules. -/
def collect (target : τ) : List (Rule τ) → Except Fault (List RuleFailure)
  | [] => .ok []
  | rule :: rest => do
    let outcome ← rule.check target
    let failures ← collect target rest
    match outcome with
    | none => return failures
    | some message => return ⟨rule.name, message⟩ :: failures

end Rule

/-- One or more failures, found in one pass. -/
structure ValidationError where
  failures : List RuleFailure
  nonempty : failures ≠ []
  deriving DecidableEq

/-- The words `part` stand somewhere in a text. -/
def occursIn (part : List Char) : List Char → Bool
  | [] => part.isEmpty
  | c :: rest => part.isPrefixOf (c :: rest) || occursIn part rest

namespace ValidationError

/-- The error of a list of failures, if there are any. -/
def ofFailures (failures : List RuleFailure) : Option ValidationError :=
  if h : failures ≠ [] then some ⟨failures, h⟩ else none

/-- The error of one failure. -/
def single (rule message : String) : ValidationError :=
  ⟨[⟨rule, message⟩], List.cons_ne_nil _ _⟩

def length (e : ValidationError) : Nat := e.failures.length

/-- No error is empty. -/
def isEmpty (e : ValidationError) : Bool := e.failures.isEmpty

/-- A failure's message contains the given text. -/
def mentions (e : ValidationError) (text : String) : Bool :=
  e.failures.any fun f => occursIn text.toList f.message.toList

def hasRule (e : ValidationError) (rule : String) : Bool :=
  e.failures.any fun f => f.rule == rule

/-- The heading and one indented line for each failure. -/
def message (e : ValidationError) : String :=
  "Validation failed with the following errors:" ++
    String.join (e.failures.map fun f => "\n    " ++ f.message)

theorem ofFailures_eq_none_iff (l : List RuleFailure) : ofFailures l = none ↔ l = [] := by
  simp [ofFailures]

theorem ofFailures_eq_some_iff (l : List RuleFailure) (e : ValidationError) :
    ofFailures l = some e ↔ e.failures = l := by
  unfold ofFailures
  split
  · rename_i h
    constructor
    · intro heq
      injection heq with heq
      rw [← heq]
    · intro heq
      cases e; cases heq; rfl
  · rename_i h
    constructor
    · intro heq
      cases heq
    · intro heq
      exact absurd (heq ▸ e.nonempty) h

end ValidationError

/-- Runs all rules; no error means that every one of them passed. -/
def Rule.run {τ : Type} (rules : List (Rule τ)) (target : τ) :
    Except Fault (Option ValidationError) := do
  return ValidationError.ofFailures (← Rule.collect target rules)

end RegionIR
