import JerkPlan.ConvexPlan
import JerkPlan.CurveFit
import JerkPlan.Recording
import JerkPlan.Refinement

/-!
# Planners

One planner serves cycle after cycle. It holds settings only; everything else
comes with the cycle. This module has the parts of a cycle that need the
settings: the horizon, the check that decides whether refining makes sense,
and the refinement problem.

The work of the solvers is behind `Stages`, four functions that a cycle calls
and that may be replaced one by one. A refinement runs under a lock that all
planners share, and `LockEvent` tells what happened to the lock, when the
program of a refinement was built and when its solver ran.

## Main definitions

* `Planner`: Settings of all kinds.
* `Surroundings`: What a cycle is told besides its path.
* `Planner.horizon`: The horizon of a cycle.
* `Planner.startsWithinLimit`: Whether refining makes sense.
* `Planner.refinement`: The refinement problem.
* `Stages`: The work of the solvers.
* `refineLocked`: A refinement under the lock.
-/

namespace JerkPlan

/-- Settings of all kinds. -/
structure Planner (R : Type) where
  settings : PlanSettings R
  comfort : Comfort R
  vehicle : Vehicle R

/-- What a cycle is told besides its path: the regions in the way, the length
    of the path and the time to plan for, the motion at the start, the limits,
    the speed to aim at, the emergency stop if there is one, and whether the
    journey is over. -/
structure Surroundings (R : Type) where
  regions : List (Region R)
  length : R
  time : R
  speed : R
  acceleration : R
  limit : SpeedLimit R
  cruiseSpeed : R
  legalSpeed : R
  brake : Option (SpeedSeries R)
  arrived : Bool

/-- What happens around the lock of a refinement. -/
inductive LockEvent
  | entered
  | building
  | solving
  | left
deriving DecidableEq

/-- The work of the solvers. -/
structure Stages (R : Type) where
  convex : Horizon R → SpeedSeries R → Outcome R (KnotProfile R)
  curvature : Path R → Outcome R (JerkCurve R)
  limit : SpeedLimit R → Outcome R (JerkCurve R)
  refine : RefinementProblem R → List LockEvent × Outcome R (KnotProfile R)

variable {R : Type} [Scalar R]

/-- What a refinement does to its problem: the program is built, and its solver
    runs if there are a program and a point to start from. -/
def RefinementProblem.work (p : RefinementProblem R) : List LockEvent :=
  match p.program, p.startingPoint with
  | .ok _, .ok _ => [.building, .solving]
  | _, _ => [.building]

/-- Do some work under the lock. The lock is left however the work ends. -/
def underLock {α : Type} (x : List LockEvent × α) : List LockEvent × α :=
  (.entered :: (x.1 ++ [.left]), x.2)

/-- Refine under the lock. -/
def refineLocked (solve : RefinementSolver R) (budget : Int) (p : RefinementProblem R) :
    List LockEvent × Outcome R (KnotProfile R) :=
  underLock (p.work, refine solve budget p)

namespace Planner

/-- The planner with the usual settings. -/
def usual : Planner R := ⟨.usual, .usual, .usual⟩

/-- The name under which a planner records. -/
def name : String := "PIECEWISE_JERK_NONLINEAR_SPEED_OPTIMIZER"

/-- The stages with given solvers. -/
def stages (p : Planner R) (convex : ConvexSolver R) (nonlinear : RefinementSolver R) :
    Stages R where
  convex h rough := planConvex convex h rough p.settings
  curvature path := fitCurvature convex path p.settings.curvatureFit
  limit l := fitSpeedLimit convex l p.settings.limitFit
  refine := refineLocked nonlinear p.settings.refinementBudget

/-- How far the top speed lies above the initial speed at least. -/
def topSpeedMargin : R := 1

/-- How many knots a time has. -/
def knotCount (p : Planner R) (time : R) : Except (Failure R) Int := do
  let n ← SpeedLimit.countOf (time / p.settings.step)
  pure (n + 1)

/-- The horizon of a cycle. It takes a speed limit of two points. -/
def horizon (p : Planner R) (rough : SpeedSeries R) (x : Surroundings R) :
    Outcome R (Horizon R) := do
  let step := p.settings.step
  let knots ← Outcome.of (p.knotCount x.time)
  if x.limit.points.length < 2 then
    Outcome.fail (.stage (.input "Speed limit needs at least two points"))
  else
    let corridor ←
      Corridor.compile x.regions knots step x.length rough x.brake p.comfort p.settings
    let h : Horizon R :=
      { place := 0
        speed := x.speed
        acceleration := x.acceleration
        step := step
        knots := knots
        length := x.length
        time := x.time
        legalSpeed := x.legalSpeed
        topSpeed := greater x.legalSpeed (x.speed + topSpeedMargin)
        minAcceleration := -magnitude p.vehicle.maxDeceleration
        maxAcceleration := p.vehicle.maxAcceleration
        minJerk := -magnitude p.comfort.jerkLower
        maxJerk := p.comfort.jerkUpper
        corridor := corridor
        cruiseSpeed := x.cruiseSpeed }
    Outcome.tell (.horizon knots x.time x.length x.speed x.acceleration h.topSpeed)
    pure h

/-- By how much the initial speed may exceed the limit at the start. -/
def limitTolerance : R := decimal 1 6

/-- Whether the initial speed is within the limit at the start. -/
def startsWithinLimit (h : Horizon R) (limit : SpeedLimit R) : Outcome R Bool :=
  if limit.points.length < 2 then do
    Outcome.tell (.plain .warning "speed limit has fewer than two points")
    pure false
  else do
    let here ← Outcome.of (limit.limitAt h.place)
    if here + limitTolerance < h.speed then
      Outcome.tell (.slowLimit here h.speed)
      pure false
    else pure true

/-- The soft corridor of a horizon, where there is one. -/
def softened (p : Planner R) (h : Horizon R) (q : RefinementProblem R) :
    Outcome R (RefinementProblem R) :=
  if h.corridor.soft.isEmpty then pure q
  else do
    let q ← Outcome.of (q.withSoft h.corridor.soft)
    pure { q with softWeight := p.settings.softWeight }

/-- The convex plan as warm start, if there is to be one. -/
def warmed (p : Planner R) (plan : KnotProfile R) (q : RefinementProblem R) :
    Outcome R (RefinementProblem R) :=
  if p.settings.warmStart then q.withWarmStart plan else pure q

/-- The distances to aim at: those of the convex plan if it is to be the
    guide, and else the end of the path. -/
def aimed (p : Planner R) (h : Horizon R) (plan : KnotProfile R) (q : RefinementProblem R) :
    Except (Failure R) (RefinementProblem R) :=
  if p.comfort.guideLine then q.withReference plan.p
  else q.withReference (List.replicate h.knots.toNat h.length)

/-- The refinement problem of a horizon, given the convex plan and both
    curves. -/
def refinement (p : Planner R) (h : Horizon R) (plan : KnotProfile R)
    (curvature limit : JerkCurve R) : Outcome R (RefinementProblem R) := do
  let s := p.settings
  let q ← Outcome.of ((RefinementProblem.ofHorizon h).withHard h.corridor.hard)
  let q ← p.softened h q
  let q ← p.warmed plan { q with curvature := some curvature, limit := some limit }
  let q ← Outcome.of (p.aimed h plan q)
  pure { q with
    referenceWeight := if p.comfort.guideLine then s.guideWeight else s.progressWeight
    cruiseSpeed := h.cruiseSpeed
    cruiseWeight := s.cruiseWeight
    accelerationWeight := s.accelerationWeight
    jerkWeight := s.jerkWeight
    lateralWeight := s.lateralWeight }

end Planner

end JerkPlan
