import JerkPlan.Decimal.Text

/-!
# Failures

Everything that can go wrong, by its cause.

A stage of planning fails with a reason in words. Two kinds of stage failure,
a fit that found no curve and a refinement that found no profile, leave the
cycle with a plan to fall back on; the others end it. Besides, data can be
rejected before any stage runs, a list can be too short for the entry asked
of it, a quantity can have no finite value, and a solver can refuse a problem
that is not one.

The wording of each cause is in one place, `Failure.message`. Only there do
numbers become text.

## Main definitions

* `StageFailure`: A stage that gives no result.
* `Invalid`: Data that no plan can be made of.
* `Refusal`: Why a solver does not take a problem.
* `Failure`: Any cause of failure.
* `Failure.message`: Its wording.
-/

namespace JerkPlan

/-- A planning stage that gives no result, with its reason in words. A
    corridor may name its first empty knot, a solver the status it ended
    with. -/
inductive StageFailure
  | general (reason : String)
  | input (reason : String)
  | corridor (reason : String) (knot : Option Int)
  | convex (reason : String) (status : Option String)
  | fit (reason : String) (status : Option String)
  | refinement (reason : String) (status : Option String)

namespace StageFailure

/-- The reason in words. -/
def reason : StageFailure → String
  | general r | input r | corridor r _ | convex r _ | fit r _ | refinement r _ => r

/-- Whether a cycle goes on with the plan it already has. -/
def recoverable : StageFailure → Bool
  | fit _ _ | refinement _ _ => true
  | _ => false

/-- The knot concerned, for the kind of failure that may name one. -/
def knot? : StageFailure → Option (Option Int)
  | corridor _ k => some k
  | _ => none

/-- The solver's status, for the kinds of failure that may have one. -/
def status? : StageFailure → Option (Option String)
  | convex _ s | fit _ s | refinement _ s => some s
  | _ => none

end StageFailure

/-- Data that no plan can be made of. A setting is named, with the value it
    got where the message shows it. -/
inductive Invalid (R : Type)
  | notPositive (setting : String) (got : Option R)
  | zero (setting : String)
  | negative (setting : String) (got : Option R)
  | inverted (setting : String) (lower upper : R)
  | notPair (count : Nat)
  | fewIterations (setting : String) (got : Int)
  | noBudget
  | earlyTime (time last : R)
  | earlyPlace (place last : R)
  | emptyPath
  | shortLimit
  | regionShape
  | regionKind (kind : String)
  | fewKnots (got : Int)
  | boundsShape (rows columns knots : Nat)
  | referenceSize (got knots : Nat)
  | weightCount (got knots : Nat)
  | sizeMismatch (what : String)
  | missingCurves
  | emptyMinimum
  | emptyMaximum

/-- Why a solver does not take a problem: bounds that cross or do not
    compare, or a budget that allows no step. -/
inductive Refusal
  | bounds
  | budget

/-- Kinds of problem over knots: a curve to fit, a motion to plan, or
    constraints alone. -/
inductive ProblemKind
  | fit
  | motion
  | bare

/-- Any cause of failure. -/
inductive Failure (R : Type)
  | stage (cause : StageFailure)
  | invalid (cause : Invalid R)
  | refused (cause : Refusal)
  | missingEntry
  | divisionByZero
  | undefinedCount
  | infiniteCount
  | overflow
  | noObjective
  | noSlopeReference (kind : ProblemKind)
  | foreign (kind reason : String)

namespace Invalid

/-- The wording of rejected data. -/
def message : Invalid Float → String
  | notPositive n none => n ++ " must be positive"
  | notPositive n (some x) => n ++ " must be positive, got " ++ Decimal.text x
  | zero n => n ++ " must be non-zero"
  | negative n none => n ++ " must be non-negative"
  | negative n (some x) => n ++ " must be non-negative, got " ++ Decimal.text x
  | inverted n l u => n ++ " inverted: (" ++ Decimal.text l ++ ", " ++ Decimal.text u ++ ")"
  | notPair c =>
    if 2 < c then "too many values to unpack (expected 2)"
    else "not enough values to unpack (expected 2, got " ++ toString c ++ ")"
  | fewIterations n c => n ++ " must be positive, got " ++ toString c
  | noBudget => "iteration budgets must be positive"
  | earlyTime t l =>
    "speed point time " ++ Decimal.text t ++ " precedes last point time " ++ Decimal.text l
  | earlyPlace s l =>
    "speed limit point s=" ++ Decimal.text s ++ " precedes last point s=" ++ Decimal.text l
  | emptyPath => "evaluate() on empty path"
  | shortLimit => "speed limit needs at least two points"
  | regionShape => "STBoundary needs >= 2 lower/upper points of equal count"
  | regionKind k => "unhandled boundary type " ++ k
  | fewKnots n => "num_of_knots must be >= 2, got " ++ toString n
  | boundsShape r c n =>
    "bounds shape (" ++ toString r ++ ", " ++ toString c ++ ") does not match " ++ toString n ++
      " knots"
  | referenceSize m n => "x_ref has " ++ toString m ++ " entries, expected " ++ toString n
  | weightCount m n =>
    "operands could not be broadcast together with remapped shapes [original->remapped]: (" ++
      toString m ++ ",)  and requested shape (" ++ toString n ++ ",)"
  | sizeMismatch w => w ++ " size does not match the number of knots"
  | missingCurves => "curvature and speed limit curves must be set before build()"
  | emptyMinimum => "min() arg is an empty sequence"
  | emptyMaximum => "max() arg is an empty sequence"

end Invalid

namespace Failure

/-- The wording of a failure. -/
def message : Failure Float → String
  | stage c => c.reason
  | invalid c => c.message
  | refused .bounds => "1"
  | refused .budget => "2"
  | missingEntry => "list index out of range"
  | divisionByZero => "float division by zero"
  | undefinedCount => "cannot convert float NaN to integer"
  | infiniteCount => "cannot convert float infinity to integer"
  | overflow => "(34, 'Numerical result out of range')"
  | noObjective => ""
  | noSlopeReference _ => "no reference speed can be set for this kind of problem"
  | foreign _ r => r

/-- Whether a cycle goes on with the plan it already has. -/
def recoverable {R : Type} : Failure R → Bool
  | stage c => c.recoverable
  | _ => false

end Failure

end JerkPlan
