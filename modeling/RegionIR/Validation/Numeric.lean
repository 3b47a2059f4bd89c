import RegionIR.Validation.Rule
import RegionIR.Number.Binary64

/-!
# Rules on numbers

Comparisons of an integer with a constant, and the rules of a number that
has to lie between two bounds.
-/

namespace RegionIR

/-- When an integer breaks a rule. -/
inductive Comparison where
  | less (bound : Int)
  | greater (bound : Int)
  | equal (bound : Int)
  | always
  | never
  deriving DecidableEq, Repr

namespace Comparison

/-- The target breaks the rule. -/
def brokenBy (c : Comparison) (target : Int) : Bool :=
  match c with
  | .less bound => target < bound
  | .greater bound => target > bound
  | .equal bound => target == bound
  | .always => true
  | .never => false

/-- The rule that fails with `message` in the given case. -/
def rule (c : Comparison) (name message : String) : Rule Int :=
  .ofTest name message c.brokenBy

end Comparison

/-- A number together with the bounds it has to respect. -/
structure Bounded where
  value : Binary64
  lower : Binary64
  upper : Binary64
  deriving DecidableEq, Repr

namespace Bounded

/-- The bounds are checked apart from each other, and a bound that is not a
number is broken by nothing; the upper one has to be a number. -/
def rules : List (Rule Bounded) := [
  .ofTest "check-lower-bound" "x must be greater than or equal to lower_bound"
    fun b => b.value.numericLt b.lower,
  .ofTest "check-upper-bound" "x must be less than or equal to upper_bound"
    fun b => b.upper.numericLt b.value,
  .ofTest "check-upper-bound-is-real" "upper_bound must be a real number"
    fun b => b.upper.isNaN]

/-- The failures of a bounded number, if there are any. -/
def validate (b : Bounded) : Except Fault (Option ValidationError) :=
  Rule.run rules b

end Bounded

end RegionIR
