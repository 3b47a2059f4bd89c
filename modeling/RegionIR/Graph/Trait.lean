/-!
# Traits of operations

A trait is a structural constraint that an operation is composed with.
-/

namespace RegionIR

inductive OpTrait where
  /-- Exactly `count` operands. -/
  | operands (count : Nat)
  /-- Any number of operands. -/
  | variadicOperands
  /-- Exactly `count` results. -/
  | results (count : Nat)
  /-- Any number of results. -/
  | variadicResults
  /-- Exactly `count` regions. -/
  | regions (count : Nat)
  /-- Defines a symbol, named by the text attribute `sym_name`. -/
  | symbol
  /-- Holds a table of symbols. -/
  | symbolTable
  /-- Ends a block and names the blocks that may follow. -/
  | terminator
  deriving DecidableEq, Repr, Inhabited

namespace OpTrait

/-- The attribute that holds the name of a symbol. -/
def symbolAttribute : String := "sym_name"

/-- The name of the rule that the trait stands for. -/
def ruleName : OpTrait → String
  | .operands _ => "n-operands"
  | .variadicOperands => "variadic-operands"
  | .results _ => "n-results"
  | .variadicResults => "variadic-results"
  | .regions _ => "n-regions"
  | .symbol => "symbol"
  | .symbolTable => "symbol-table"
  | .terminator => "terminator"

/-- Traits in order of first mention, each once. -/
def withoutRepeats (traits : List OpTrait) : List OpTrait :=
  traits.foldl (fun seen t => if t ∈ seen then seen else seen ++ [t]) []

theorem foldl_append_unseen (traits seen : List OpTrait) :
    traits.foldl (fun seen t => if t ∈ seen then seen else seen ++ [t]) seen =
      seen ++ (traits.filter fun t => t ∉ seen).eraseDups := by
  induction traits generalizing seen with
  | nil => simp
  | cons t rest ih =>
    rw [List.foldl_cons, ih]
    by_cases ht : t ∈ seen
    · simp [ht]
    · have hrest : rest.filter (fun t' => t' ∉ seen ++ [t]) =
          (rest.filter fun t' => t' ∉ seen).filter fun t' => !t' == t := by
        rw [List.filter_filter]
        refine List.filter_congr fun t' _ => ?_
        by_cases heq : t' = t <;> simp [heq]
      rw [if_neg ht, hrest, List.append_assoc, List.filter_cons_of_pos (by simpa using ht),
        List.eraseDups_cons]
      rfl

theorem withoutRepeats_eq_eraseDups (traits : List OpTrait) :
    withoutRepeats traits = traits.eraseDups := by
  have hall : (traits.filter fun t => t ∉ ([] : List OpTrait)) = traits :=
    List.filter_eq_self.2 fun _ _ => by simp
  rw [withoutRepeats, foldl_append_unseen, hall, List.nil_append]

end OpTrait

end RegionIR
