import JerkPlan.CurveTable
import JerkPlan.Horizon
import JerkPlan.SolveStatus

/-!
# Refinement

The second plan of a cycle, a nonlinear program: besides distance, speed and
acceleration it weighs the lateral acceleration on a winding road, follows the
speed limit along the path, and pays for leaving the soft corridor.

Its variables are the distances at all knots, then the speeds, then the
accelerations, and with a soft corridor one slack per knot and side. The
curves of curvature and speed limit enter as functions of distance.

## Main definitions

* `RefinementProblem`: The problem as it is put together.
* `RefinementProgram`: Bounds, rows and cost.
* `RefinementProblem.programWith`: The program for given curve functions.
* `RefinementProblem.program`: The program, its curves made smooth functions.
* `RefinementProblem.startingPoint`: Where a solver begins.
* `refine`: Asking a solver.
-/

namespace JerkPlan

/-- The parts of a refinement. The corridor and the curves must be set before
    there is a program; without a warm start the solver begins with a constant
    speed, and without a reference the end of the path is the aim. -/
structure RefinementProblem (R : Type) where
  horizon : Horizon R
  hard : List (R × R)
  soft : List (R × R)
  softWeight : R
  curvature : Option (JerkCurve R)
  limit : Option (JerkCurve R)
  warmStart : Option (KnotProfile R)
  reference : Option (List R)
  referenceWeight : R
  cruiseSpeed : R
  cruiseWeight : R
  accelerationWeight : R
  jerkWeight : R
  lateralWeight : R

/-- A quantity that must lie between two ends. -/
structure BoundedRow (R : Type) where
  value : (Nat → R) → R
  lower : Endpoint R
  upper : Endpoint R

/-- Bounds of the variables, rows, and the cost of a point. -/
structure RefinementProgram (R : Type) where
  bounds : List (Endpoint R × Endpoint R)
  rows : List (BoundedRow R)
  cost : (Nat → R) → R

variable {R : Type} [Scalar R]

/-- A point keeps the bounds and the rows of a program. -/
def RefinementProgram.Feasible (p : RefinementProgram R) (x : Nat → R) : Prop :=
  (∀ b ∈ p.bounds.zipIdx, b.1.1.atLeast (x b.2) ∧ b.1.2.atMost (x b.2)) ∧
    ∀ r ∈ p.rows, r.lower.atLeast (r.value x) ∧ r.upper.atMost (r.value x)

namespace RefinementProblem

/-- The problem of a horizon, nothing else set. -/
def ofHorizon (h : Horizon R) : RefinementProblem R :=
  ⟨h, [], [], 0, none, none, none, none, 0, 0, 0, 0, 0, 0⟩

/-- How many knots there are. -/
def knots (p : RefinementProblem R) : Nat := p.horizon.knots.toNat

/-- The hard corridor, one interval for each knot. -/
def withHard (p : RefinementProblem R) (bounds : List (R × R)) :
    Except (Failure R) (RefinementProblem R) :=
  if (bounds.length : Int) ≠ p.horizon.knots then .error (.invalid (.sizeMismatch "safety bounds"))
  else .ok { p with hard := bounds }

/-- The soft corridor, one interval for each knot. -/
def withSoft (p : RefinementProblem R) (bounds : List (R × R)) :
    Except (Failure R) (RefinementProblem R) :=
  if (bounds.length : Int) ≠ p.horizon.knots then
    .error (.invalid (.sizeMismatch "soft safety bounds"))
  else .ok { p with soft := bounds }

/-- The distances to aim at, one for each knot. -/
def withReference (p : RefinementProblem R) (places : List R) :
    Except (Failure R) (RefinementProblem R) :=
  if (places.length : Int) ≠ p.horizon.knots then
    .error (.invalid (.sizeMismatch "reference spatial distance"))
  else .ok { p with reference := some places }

/-- The profile to begin with, valid and of one sample for each knot. -/
def withWarmStart (p : RefinementProblem R) (k : KnotProfile R) :
    Outcome R (RefinementProblem R) :=
  if !k.valid || (k.size : Int) != p.horizon.knots then
    let words := "Piecewise jerk speed nonlinear optimizer warm start invalid!"
    Outcome.complain words (.stage (.refinement words (some StatusReport.unknown)))
  else pure { p with warmStart := some k }

/-- Whether there is a soft corridor. -/
def usesSoft (p : RefinementProblem R) : Bool := !p.soft.isEmpty

/-- The running maximum of a list. -/
def runningMax : List R → List R
  | [] => []
  | x :: xs => go x xs
where
  go (m : R) : List R → List R
    | [] => [m]
    | y :: ys => m :: go (greater m y) ys

/-- The speed of a start without a warm start. -/
def coldSpeed (p : RefinementProblem R) : R :=
  lesser (greater p.horizon.speed 0) p.horizon.topSpeed

/-- The distances of a start without a warm start: constant speed, as far as
    the corridor allows, and never backwards. -/
def coldPlaces (p : RefinementProblem R) : Except (Failure R) (List R) := do
  let places ← (List.range p.knots).mapM fun (i : Nat) =>
    match p.hard[i]? with
    | some b => .ok (lesser (p.horizon.place + p.coldSpeed * (i : R) * p.horizon.step) b.2)
    | none => .error .missingEntry
  pure (runningMax places)

/-- Where a solver begins. -/
def startingPoint (p : RefinementProblem R) : Except (Failure R) (List R) := do
  let n := p.knots
  let states ← match p.warmStart with
    | some k => pure (k.p ++ k.v ++ k.a)
    | none => do
      let places ← p.coldPlaces
      pure (places ++ List.replicate n p.coldSpeed ++ List.replicate n 0)
  pure (if p.usesSoft then states ++ List.replicate (2 * n) 0 else states)

/-- The square of a scalar. -/
def sq (x : R) : R := x * x

/-- The cost of a point. -/
def cost (p : RefinementProblem R) (kappa : R → R) (x : Nat → R) : R :=
  let n := p.knots
  let knots := List.range n
  let aim (i : Nat) : R := (p.reference.elim p.horizon.length fun r => (r[i]?).getD 0)
  let states := knots.foldl (fun sum i =>
    let s := x i
    let v := x (n + i)
    let a := x (2 * n + i)
    sum + p.referenceWeight * sq (s - aim i) + p.cruiseWeight * sq (v - p.cruiseSpeed) +
      p.accelerationWeight * sq a + p.lateralWeight * sq (sq v * kappa s)) 0
  let changes := (List.range (n - 1)).foldl (fun sum i =>
    sum + p.jerkWeight * sq ((x (2 * n + i + 1) - x (2 * n + i)) / p.horizon.step)) states
  if p.usesSoft then
    knots.foldl (fun sum i => sum + p.softWeight * (x (3 * n + i) + x (4 * n + i))) changes
  else changes

/-- Distances never decrease. -/
def advanceRow (i : Nat) : BoundedRow R := ⟨fun x => x (i + 1) - x i, .finite 0, .plusInfinity⟩

/-- The jerk over a step. -/
def jerkRow (p : RefinementProblem R) (i : Nat) : BoundedRow R :=
  let j := 2 * p.knots + i
  ⟨fun x => (x (j + 1) - x j) / p.horizon.step, .finite p.horizon.minJerk,
    .finite p.horizon.maxJerk⟩

/-- The distance that constant jerk leads to over a step. -/
def placeRow (p : RefinementProblem R) (i : Nat) : BoundedRow R :=
  let n := p.knots
  let δ := p.horizon.step
  ⟨fun x => x (i + 1) - x i - δ * x (n + i) - δ * δ / ((3 : Nat) : R) * x (2 * n + i) -
      δ * δ / ((6 : Nat) : R) * x (2 * n + i + 1), .finite 0, .finite 0⟩

/-- The speed that constant jerk leads to over a step. -/
def speedRow (p : RefinementProblem R) (i : Nat) : BoundedRow R :=
  let n := p.knots
  ⟨fun x => x (n + i + 1) - x (n + i) -
      decimal 5 1 * p.horizon.step * (x (2 * n + i) + x (2 * n + i + 1)), .finite 0, .finite 0⟩

/-- The speed limit at a knot's distance. -/
def limitRow (p : RefinementProblem R) (limit : R → R) (i : Nat) : BoundedRow R :=
  ⟨fun x => x (p.knots + i) - limit (x i), .minusInfinity, .finite 0⟩

/-- The two soft ends at a knot, each eased by its slack. -/
def softRows (p : RefinementProblem R) (i : Nat) (ends : R × R) : List (BoundedRow R) :=
  let n := p.knots
  [⟨fun x => x i - ends.1 + x (3 * n + i), .finite 0, .plusInfinity⟩,
    ⟨fun x => x i - ends.2 - x (4 * n + i), .minusInfinity, .finite 0⟩]

/-- All rows, in order. -/
def rows (p : RefinementProblem R) (limit : R → R) : List (BoundedRow R) :=
  let steps := List.range (p.knots - 1)
  steps.map advanceRow ++ steps.map p.jerkRow ++ steps.map p.placeRow ++ steps.map p.speedRow ++
    (List.range p.knots).map (p.limitRow limit) ++
    p.soft.zipIdx.flatMap fun (ends, i) => p.softRows i ends

/-- The bounds of a block of variables, the first of which is fixed. -/
def fixFirst (x : R) : List (Endpoint R × Endpoint R) → List (Endpoint R × Endpoint R)
  | [] => []
  | _ :: rest => (.finite x, .finite x) :: rest

/-- The bounds of all variables. -/
def variableBounds (p : RefinementProblem R) : List (Endpoint R × Endpoint R) :=
  let n := p.knots
  let h := p.horizon
  fixFirst h.place (p.hard.map fun b => (.finite b.1, .finite b.2)) ++
    fixFirst h.speed (List.replicate n (.finite 0, .finite h.topSpeed)) ++
    fixFirst h.acceleration
      (List.replicate n (.finite h.minAcceleration, .finite h.maxAcceleration)) ++
    if p.usesSoft then List.replicate (2 * n) (.finite 0, .plusInfinity) else []

/-- The program with given functions of curvature and speed limit. -/
def programWith (p : RefinementProblem R) (kappa limit : R → R) : RefinementProgram R :=
  ⟨p.variableBounds, p.rows limit, p.cost kappa⟩

/-- How far the curves must be known: to the end of the path and to every
    ceiling of the corridor. -/
def reach (p : RefinementProblem R) : Except (Failure R) R :=
  match p.hard with
  | [] => .error (.invalid .emptyMaximum)
  | b :: bs => .ok (greater p.horizon.length (bs.foldl (fun m c => greater m c.2) b.2))

/-- The smooth functions of curvature and speed limit. -/
def splines (p : RefinementProblem R) : Except (Failure R) (Spline R × Spline R) := do
  match p.curvature, p.limit with
  | some curvature, some limit =>
    let reach ← p.reach
    let kappa ← Spline.ofCurve curvature reach CurveTable.usualSpacing
    let bound ← Spline.ofCurve limit reach CurveTable.usualSpacing
    pure (kappa, bound)
  | _, _ => .error (.invalid .missingCurves)

/-- The program of the problem. -/
def program (p : RefinementProblem R) : Except (Failure R) (RefinementProgram R) := do
  let (kappa, limit) ← p.splines
  pure (p.programWith kappa.eval limit.eval)

end RefinementProblem

/-- How a solver leaves a refinement: it breaks down with some words, or it
    reports a status, after some iterations, with a cost and a profile. -/
inductive RefinementAnswer (R : Type)
  | brokeDown (words : String)
  | ended (report : StatusReport) (iterations : Nat) (cost : R) (profile : KnotProfile R)

/-- Whatever answers a refinement within a budget of iterations. -/
def RefinementSolver (R : Type) := Int → RefinementProblem R → RefinementAnswer R

/-- The reason of a refinement that fails. -/
def refinementFailed : String := "Piecewise jerk speed nonlinear optimizer failed"

/-- The words of a report. -/
def StatusReport.words : StatusReport → String
  | .code n => toString n
  | .name s => s
  | .status s => s.name
  | .illegible => "None"

/-- Ask a solver for the refined profile. -/
def refine (solve : RefinementSolver R) (budget : Int) (p : RefinementProblem R) :
    Outcome R (KnotProfile R) := do
  let _ ← Outcome.of p.program
  let _ ← Outcome.of p.startingPoint
  match solve budget p with
  | .brokeDown words =>
    Outcome.tell (.plain .error (refinementFailed ++ ": " ++ words))
    Outcome.fail (.stage (.refinement refinementFailed (some StatusReport.unknown)))
  | .ended report iterations cost profile =>
    if report.success then
      Outcome.tell (.refined iterations cost)
      pure profile
    else
      match report.status? with
      | some status => Outcome.tell (.plain .error ("Solver failure case is : " ++ status.name))
      | none =>
        Outcome.tell (.plain .error ("Solver ends with unknown failure code: " ++ report.words))
      Outcome.complain refinementFailed
        (.stage (.refinement refinementFailed (some report.statusName)))

end JerkPlan
