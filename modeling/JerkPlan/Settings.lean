import JerkPlan.Failure
import JerkPlan.Scalar

/-!
# Settings

What a planner is told once: the limits of the vehicle, the comfort the
passengers expect, how to fit a curve through noisy samples, and how to weigh
the aims of a plan against each other.

Each group of settings has usual values and one check, `checked`, that gives
back the settings or the first fault in them. Faults are looked for in a fixed
order, settings that must be positive before weights that must not be
negative. A value that compares with nothing passes every check.

The four ranges of a fit come as lists, since a list of other than two values
is one of the faults; `FitDraft` holds them, `FitSettings` is what a checked
draft becomes.

## Main definitions

* `Vehicle`: What the vehicle can do.
* `Comfort`: What the passengers expect, and which parts of planning to use.
* `FitDraft`, `FitSettings`: How to fit a curve.
* `PlanSettings`: The aims of a plan and their weights.
-/

namespace JerkPlan

variable {R : Type} [Scalar R]

/-- A setting that must be above zero, its value shown where it is not. -/
def needPositive (setting : String) (x : R) : Except (Failure R) Unit :=
  if x ≤ 0 then .error (.invalid (.notPositive setting (some x))) else .ok ()

/-- A setting that must be above zero, its value kept to itself. -/
def needPositiveQuietly (setting : String) (x : R) : Except (Failure R) Unit :=
  if x ≤ 0 then .error (.invalid (.notPositive setting none)) else .ok ()

/-- The first weight below zero is a fault, its value shown. -/
def needWeights : List (String × R) → Except (Failure R) Unit
  | [] => .ok ()
  | (n, w) :: ws => if w < 0 then .error (.invalid (.negative n (some w))) else needWeights ws

/-- The first weight below zero is a fault, its value kept to itself. -/
def needWeightsQuietly : List (String × R) → Except (Failure R) Unit
  | [] => .ok ()
  | (n, w) :: ws => if w < 0 then .error (.invalid (.negative n none)) else needWeightsQuietly ws

/-- What the vehicle can do. Braking is given by its strength. -/
structure Vehicle (R : Type) where
  maxAcceleration : R
  maxDeceleration : R

namespace Vehicle

/-- The usual vehicle. -/
def usual : Vehicle R := ⟨((2 : Nat) : R), ((6 : Nat) : R)⟩

/-- A vehicle must be able to speed up, and to change its speed downwards. -/
def checked (v : Vehicle R) : Except (Failure R) (Vehicle R) := do
  needPositive "max_acceleration" v.maxAcceleration
  if same v.maxDeceleration 0 then .error (.invalid (.zero "max_deceleration"))
  pure v

end Vehicle

/-- Comfortable jerk, the distance to keep behind others, which parts of
    planning to use, and how long a published motion must last. -/
structure Comfort (R : Type) where
  jerkLower : R
  jerkUpper : R
  followDistance : R
  followTime : R
  followCap : R
  softBounds : Bool
  guideLine : Bool
  refine : Bool
  publishTime : R
  publishUnit : R

namespace Comfort

/-- The usual comfort. -/
def usual : Comfort R where
  jerkLower := -((4 : Nat) : R)
  jerkUpper := ((2 : Nat) : R)
  followDistance := ((3 : Nat) : R)
  followTime := decimal 25 1
  followCap := ((7 : Nat) : R)
  softBounds := true
  guideLine := false
  refine := true
  publishTime := ((3 : Nat) : R)
  publishUnit := decimal 1 1

/-- Jerk must be able to rise, and published samples to go on in time. -/
def checked (c : Comfort R) : Except (Failure R) (Comfort R) := do
  needPositiveQuietly "longitudinal_jerk_upper_bound" c.jerkUpper
  needPositiveQuietly "fallback_time_unit" c.publishUnit
  pure c

end Comfort

/-- How to fit a curve: the spacing of the samples, the solver's budget, how
    many samples to take (zero for the whole domain), the range of the value
    and of each derivative, and the weights of value, derivatives and distance
    to the samples. -/
structure FitSettings (R : Type) where
  spacing : R
  budget : Int
  samples : Int
  xRange : R × R
  dxRange : R × R
  ddxRange : R × R
  dddxRange : R × R
  xWeight : R
  dxWeight : R
  ddxWeight : R
  dddxWeight : R
  referenceWeight : R

/-- Settings of a fit before their check, each range a list of values. -/
structure FitDraft (R : Type) where
  spacing : R
  budget : Int
  samples : Int
  xRange : List R
  dxRange : List R
  ddxRange : List R
  dddxRange : List R
  xWeight : R
  dxWeight : R
  ddxWeight : R
  dddxWeight : R
  referenceWeight : R

/-- The usual fit with a given spacing and budget. -/
def FitDraft.usual (spacing : R) (budget : Int) : FitDraft R :=
  let ten : R := ((10 : Nat) : R)
  ⟨spacing, budget, 0, [-1, 1], [-ten, ten], [-ten, ten], [-ten, ten], 0, ten, ten, ten, ten⟩

/-- A range from its two ends, which must not cross. -/
def rangeOf (setting : String) : List R → Except (Failure R) (R × R)
  | [l, u] => if u < l then .error (.invalid (.inverted setting l u)) else .ok (l, u)
  | xs => .error (.invalid (.notPair xs.length))

/-- A fit needs a spacing, a budget, proper ranges and no negative weight. -/
def FitDraft.checked (d : FitDraft R) : Except (Failure R) (FitSettings R) := do
  needPositive "delta_s" d.spacing
  if d.budget ≤ 0 then .error (.invalid (.fewIterations "max_iter" d.budget))
  let x ← rangeOf "x_bounds" d.xRange
  let dx ← rangeOf "dx_bounds" d.dxRange
  let ddx ← rangeOf "ddx_bounds" d.ddxRange
  let dddx ← rangeOf "dddx_bounds" d.dddxRange
  needWeightsQuietly [("weight_x", d.xWeight), ("weight_dx", d.dxWeight),
    ("weight_ddx", d.ddxWeight), ("weight_dddx", d.dddxWeight),
    ("weight_x_ref", d.referenceWeight)]
  pure ⟨d.spacing, d.budget, d.samples, x, dx, ddx, dddx, d.xWeight, d.dxWeight, d.ddxWeight,
    d.dddxWeight, d.referenceWeight⟩

namespace FitSettings

/-- The usual fit of a path's curvature. -/
def curvature : FitSettings R :=
  let ten : R := ((10 : Nat) : R)
  ⟨decimal 5 1, 1000, 0, (-1, 1), (-ten, ten), (-ten, ten), (-ten, ten), 0, ten, ten, ten, ten⟩

/-- The usual fit of a speed limit. -/
def speedLimit : FitSettings R :=
  let ten : R := ((10 : Nat) : R)
  ⟨((2 : Nat) : R), 4000, 100, (0, ((50 : Nat) : R)), (-ten, ten), (-ten, ten), (-ten, ten), 0,
    ten, ten, ten, ten⟩

end FitSettings

/-- The aims of a plan with their weights, the step between knots, the budgets
    of the solvers, the margins of the bounds, and the two fits. -/
structure PlanSettings (R : Type) where
  accelerationWeight : R
  jerkWeight : R
  lateralWeight : R
  progressWeight : R
  cruiseWeight : R
  referenceWeight : R
  softWeight : R
  guideWeight : R
  warmStart : Bool
  step : R
  convexBudget : Int
  refinementBudget : Int
  boundMargin : R
  overtakeMargin : R
  brakeMargin : R
  followMargin : R
  curvatureFit : FitSettings R
  limitFit : FitSettings R

namespace PlanSettings

/-- The usual aims. -/
def usual : PlanSettings R where
  accelerationWeight := ((2 : Nat) : R)
  jerkWeight := ((3 : Nat) : R)
  lateralWeight := ((1000 : Nat) : R)
  progressWeight := decimal 5 2
  cruiseWeight := ((5 : Nat) : R)
  referenceWeight := ((100 : Nat) : R)
  softWeight := ((1000000 : Nat) : R)
  guideWeight := decimal 5 2
  warmStart := true
  step := decimal 1 1
  convexBudget := 4000
  refinementBudget := 1000
  boundMargin := decimal 1 1
  overtakeMargin := ((10 : Nat) : R)
  brakeMargin := decimal 2 1
  followMargin := ((8 : Nat) : R)
  curvatureFit := .curvature
  limitFit := .speedLimit

/-- A plan needs a step, no negative weight, both budgets and a margin. -/
def checked (c : PlanSettings R) : Except (Failure R) (PlanSettings R) := do
  needPositive "delta_t" c.step
  needWeights [("acc_weight", c.accelerationWeight), ("jerk_weight", c.jerkWeight),
    ("lat_acc_weight", c.lateralWeight), ("s_potential_weight", c.progressWeight),
    ("ref_v_weight", c.cruiseWeight), ("ref_s_weight", c.referenceWeight),
    ("soft_s_bound_weight", c.softWeight), ("dp_guide_line_weight", c.guideWeight)]
  if c.convexBudget ≤ 0 ∨ c.refinementBudget ≤ 0 then .error (.invalid .noBudget)
  needPositiveQuietly "s_bound_epsilon" c.boundMargin
  pure c

end PlanSettings

end JerkPlan
