import JerkPlan.KnotProblem
import JerkPlan.Path
import JerkPlan.Settings
import JerkPlan.SpeedLimit
import JerkPlan.SpeedSeries

/-!
# Fitting reference curves

Curves of bounded jerk through samples: the curvature of a path, and the
speed limit along it. The samples are a fixed spacing apart. A solver finds
values and derivatives at the samples, and the curve is rebuilt from the
second derivatives, which determine the jerk of every segment.

A fit takes two samples. When it has fewer, or when the solver accepts no
answer, the stage fails in a way that a cycle recovers from.

## Main definitions

* `fitCurve`: The curve through samples.
* `sampleCurvature`: The curvature of a path at even distances.
* `fitCurvature`: The curve of a path's curvature.
* `fitSpeedLimit`: The curve of a speed limit.
-/

namespace JerkPlan

variable {R : Type} [Scalar R]

/-- The problem of a fit. -/
def fitProblem (samples : List R) (start : Motion R) (f : FitSettings R) :
    Except (Failure R) (KnotProblem R) := do
  let p ← KnotProblem.make .fit samples.length f.spacing [start.p, start.v, start.a]
  let everywhere := fun (b : R × R) => List.replicate p.knots (KnotProblem.finitePair b)
  KnotProblem.withReference
    { p with
      pBounds := everywhere f.xRange
      vBounds := everywhere f.dxRange
      aBounds := everywhere f.ddxRange
      jerkBounds := KnotProblem.finitePair f.dddxRange
      pWeight := f.xWeight
      vWeight := f.dxWeight
      aWeight := f.ddxWeight
      jerkWeight := f.dddxWeight }
    [f.referenceWeight] samples

/-- The curve that goes on with the jerks between neighbouring second
    derivatives. -/
def extendBy (spacing : R) : List R → JerkCurve R → Except (Failure R) (JerkCurve R)
  | a :: b :: rest, c => do
    let c ← c.append ((b - a) / spacing) spacing
    extendBy spacing (b :: rest) c
  | _, c => .ok c

/-- The curve with the second derivatives of a profile, from its first knot. -/
def rebuild (spacing : R) (k : KnotProfile R) : Except (Failure R) (JerkCurve R) :=
  match k.p, k.v, k.a with
  | p :: _, v :: _, a :: as => extendBy spacing (a :: as) ⟨⟨p, v, a⟩, [], []⟩
  | _, _, _ => .error .missingEntry

/-- The curve through samples that starts in a given state. The name tells
    what is fitted when the fit fails. -/
def fitCurve (solve : ConvexSolver R) (samples : List R) (start : Motion R) (f : FitSettings R)
    (name : String) : Outcome R (JerkCurve R) :=
  if samples.length < 2 then
    Outcome.fail (.stage (.fit ("Smoothing " ++ name ++ " failed: need at least 2 samples, got " ++
      toString samples.length) none))
  else do
    let p ← Outcome.of (fitProblem samples start f)
    let answer ← p.optimize solve f.budget
    if answer.status.accepted then Outcome.of (rebuild f.spacing answer.profile)
    else
      let words := "Smoothing " ++ name ++ " failed"
      Outcome.complain words (.stage (.fit words (some answer.status.name)))

/-- Distances a spacing apart from `s` on that lie before `finish`, at most
    `fuel` of them. -/
def stations (spacing finish : R) : (fuel : Nat) → (s : R) → List R
  | 0, _ => []
  | fuel + 1, s =>
    if s < finish then s :: stations spacing finish fuel (s + spacing) else []

/-- The curvature of a path at distances a spacing apart, from its first point
    until a spacing past its last. -/
def sampleCurvature (path : Path R) (spacing : R) : Except (Failure R) (List R) := do
  let first ← path.front
  let last ← path.back
  let finish := last.s + spacing
  let places := stations spacing finish (SpeedSeries.stepCount (finish - first.s) spacing) first.s
  places.mapM fun s => return (← path.pointAt s).kappa

/-- The curve of a path's curvature. -/
def fitCurvature (solve : ConvexSolver R) (path : Path R) (f : FitSettings R) :
    Outcome R (JerkCurve R) := do
  let samples ← Outcome.of (sampleCurvature path f.spacing)
  let first ← Outcome.of path.front
  fitCurve solve samples ⟨first.kappa, first.dkappa, first.ddkappa⟩ f "path curvature"

/-- The curve of a speed limit, over as many samples as the settings ask for
    or else a hundred. -/
def fitSpeedLimit (solve : ConvexSolver R) (limit : SpeedLimit R) (f : FitSettings R) :
    Outcome R (JerkCurve R) := do
  let count := if 0 < f.samples then f.samples.toNat else 100
  if limit.points.length < 2 then
    Outcome.fail (.stage
      (.fit "Smoothing speed limit failed: need at least 2 speed limit points" none))
  else
    let samples ← Outcome.of
      ((List.range count).mapM fun (i : Nat) => limit.limitAt ((i : R) * f.spacing))
    match samples with
    | [] => Outcome.fail .missingEntry
    | v :: _ => fitCurve solve samples ⟨v, 0, 0⟩ f "speed limit"

end JerkPlan
