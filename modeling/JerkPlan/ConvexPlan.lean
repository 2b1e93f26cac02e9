import JerkPlan.Horizon

/-!
# The convex plan

The first plan of a cycle: as little acceleration and jerk as possible while
staying close to the rough motion, inside the hard corridor. It looks at one
speed bound for the whole horizon, which leaves room for the initial speed;
what depends on the distance travelled, curvature and the speed limit along
the path, is left to the refinement.

## Main definitions

* `referenceDistances`: Where the rough motion is at each knot.
* `convexProblem`: The problem of the convex plan.
* `planConvex`: The convex plan.
-/

namespace JerkPlan

variable {R : Type} [Scalar R]

/-- How much faster than its start a convex plan may become at least. -/
def startSpeedMargin : R := decimal 1 1

/-- Where the rough motion is at each knot; knots outside its time span are
    read at its ends. -/
def referenceDistances (rough : SpeedSeries R) (h : Horizon R) : Except (Failure R) (List R) := do
  let first ← rough.front
  let last ← rough.back
  pure (h.times.map fun t =>
    (rough.byTime (lesser (greater t first.t) last.t)).elim h.place (·.s))

/-- The problem of the convex plan. Without two samples of rough motion there
    is nothing to stay close to, which is worth a warning. -/
def convexProblem (h : Horizon R) (rough : SpeedSeries R) (p : PlanSettings R) :
    Outcome R (KnotProblem R) := do
  let q ← Outcome.of (KnotProblem.make .motion h.knots h.step h.start)
  let bounds ← Outcome.of
    ((BoundsSpec.perKnot (h.corridor.hard.map fun b => [b.1, b.2])).settle q.knots)
  let everywhere := fun (b : R × R) => List.replicate q.knots (KnotProblem.finitePair b)
  let q : KnotProblem R :=
    { q with
      pBounds := bounds.map KnotProblem.finitePair
      vBounds := everywhere (0, greater h.legalSpeed (h.speed + startSpeedMargin))
      aBounds := everywhere (h.minAcceleration, h.maxAcceleration)
      jerkBounds := KnotProblem.finitePair (h.minJerk, h.maxJerk)
      aWeight := p.accelerationWeight
      jerkWeight := p.jerkWeight }
  if 2 ≤ rough.samples.length then
    let targets ← Outcome.of (referenceDistances rough h)
    Outcome.of (q.withReference [p.referenceWeight] targets)
  else
    Outcome.tell (.plain .warning
      "rough speed profile has fewer than 2 points, QP runs without position reference")
    pure q

/-- The convex plan of a horizon. -/
def planConvex (solve : ConvexSolver R) (h : Horizon R) (rough : SpeedSeries R)
    (p : PlanSettings R) : Outcome R (KnotProfile R) := do
  let q ← convexProblem h rough p
  let answer ← q.optimize solve p.convexBudget
  if answer.status.accepted then pure answer.profile
  else
    let words := "Speed Optimization by Quadratic Programming failed"
    Outcome.tell (.plain .error (words ++ " (status: " ++ answer.status.name ++ ")"))
    Outcome.fail (.stage (.convex words (some answer.status.name)))

end JerkPlan
