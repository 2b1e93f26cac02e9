import JerkPlan.JerkCurve
import JerkPlan.Publication
import JerkPlan.SpeedLimit

/-!
# Recordings

What a cycle shows of its work to whoever looks at it later: the speed series
of its stages, and graphs of time and distance with the free stretch of road
and the speed limit. Planning writes into a recording and never reads from it.

## Main definitions

* `Recording`: Recorded series and graphs.
* `drivableOutline`: The outline of a corridor.
* `Recording.recordCorridor`, `Recording.recordConvex`,
  `Recording.recordLimit`: What the stages of a cycle record.
-/

namespace JerkPlan

/-- A named speed series. -/
structure PlanRecord (R : Type) where
  name : String
  samples : List (SpeedSample R)

/-- A named outline in a graph, of points `(t, s)`. -/
structure OutlineRecord (R : Type) where
  name : String
  kind : String
  points : List (R × R)

/-- A named graph: outlines, and a speed limit of points `(s, v)`. -/
structure GraphRecord (R : Type) where
  name : String
  outlines : List (OutlineRecord R)
  limit : List (R × R)

/-- Recorded series and graphs, in order. -/
structure Recording (R : Type) where
  plans : List (PlanRecord R)
  graphs : List (GraphRecord R)

variable {R : Type} [Scalar R]

/-- The outline of a corridor: the floors forward in time, then the ceilings
    back to the start. -/
def drivableOutline (bounds : List (R × R)) (step : R) : List (R × R) :=
  let timed := bounds.zipIdx.map fun (b, (i : Nat)) => ((i : R) * step, b)
  (timed.map fun (t, b) => (t, b.1)) ++ (timed.reverse.map fun (t, b) => (t, b.2))

namespace Recording

/-- The recording in which nothing is. -/
def empty : Recording R := ⟨[], []⟩

/-- Whether nothing is recorded. -/
def isEmpty (r : Recording R) : Bool := r.plans.isEmpty && r.graphs.isEmpty

/-- One more series. -/
def addPlan (r : Recording R) (name : String) (samples : List (SpeedSample R)) : Recording R :=
  { r with plans := r.plans ++ [⟨name, samples⟩] }

/-- One more graph. -/
def addGraph (r : Recording R) (g : GraphRecord R) : Recording R :=
  { r with graphs := r.graphs ++ [g] }

/-- The first series of a name. -/
def plan? (r : Recording R) (name : String) : Option (PlanRecord R) :=
  r.plans.find? fun p => p.name == name

/-- The corridor of a horizon and the emergency stop it leaves room for. A
    cycle without an emergency stop records neither. -/
def recordCorridor (r : Recording R) (name : String) (h : Horizon R)
    (brake : Option (SpeedSeries R)) : Recording R :=
  match brake with
  | none | some ⟨[]⟩ => r
  | some b =>
    (r.addPlan "minimum_jerk_speed_profile" b.samples).addGraph
      ⟨name, [⟨"ST_drive_Boundary", "DRIVABLE_REGION", drivableOutline h.corridor.hard h.step⟩], []⟩

/-- The convex plan, all of it. -/
def recordConvex (r : Recording R) (k : KnotProfile R) (step : R) :
    Except (Failure R) (Recording R) := do
  pure (r.addPlan "qp_speed" (← profileSamples k step false))

/-- The fitted speed limit at the points of the legal one, in the latest
    graph if there is one. -/
def recordLimit (r : Recording R) (limit : SpeedLimit R) (curve : JerkCurve R) : Recording R :=
  match r.graphs.reverse with
  | [] => r
  | g :: earlier =>
    let points := limit.points.map fun (s, _) => (s, curve.eval 0 s)
    { r with graphs := ({ g with limit := g.limit ++ points } :: earlier).reverse }

end Recording

end JerkPlan
