import JerkPlan.Failure
import JerkPlan.Lookup

/-!
# Paths

The geometry a plan moves along: points with their heading, curvature and
curvature derivatives, tabulated over the distance `s` from the start of the
path. Between two points every quantity is interpolated linearly, the heading
included since neighbouring points are close, and beyond either end the end
point holds.

## Main definitions

* `PathPoint`: A point of a path.
* `Path`: The points in order of distance.
* `Path.pointAt`: The point at a distance.
-/

namespace JerkPlan

/-- A point of a path, at distance `s`. -/
structure PathPoint (R : Type) where
  x : R
  y : R
  theta : R
  kappa : R
  dkappa : R
  ddkappa : R
  s : R

/-- A path by its points, in the order they come. -/
structure Path (R : Type) where
  points : List (PathPoint R)

namespace Path

variable {R : Type} [Scalar R]

/-- The first point. -/
def front (p : Path R) : Except (Failure R) (PathPoint R) :=
  p.points.head?.elim (.error .missingEntry) .ok

/-- The last point. -/
def back (p : Path R) : Except (Failure R) (PathPoint R) :=
  p.points.getLast?.elim (.error .missingEntry) .ok

/-- A point by its index. -/
def get (p : Path R) (i : Int) : Except (Failure R) (PathPoint R) :=
  (entry p.points i).elim (.error .missingEntry) .ok

/-- The distance of the last point, zero if there is none. -/
def maxS (p : Path R) : R := p.points.getLast?.elim 0 (·.s)

/-- The distance from the first point to the last. -/
def length (p : Path R) : R :=
  match p.points.head?, p.points.getLast? with
  | some a, some b => b.s - a.s
  | _, _ => 0

/-- The point between two others at a distance. -/
def between (p q : PathPoint R) (s : R) : PathPoint R where
  x := lerp p.x p.s q.x q.s s
  y := lerp p.y p.s q.y q.s s
  theta := lerp p.theta p.s q.theta q.s s
  kappa := lerp p.kappa p.s q.kappa q.s s
  dkappa := lerp p.dkappa p.s q.dkappa q.s s
  ddkappa := lerp p.ddkappa p.s q.ddkappa q.s s
  s := s

/-- The point at a distance, held at both ends. -/
def pointAt (p : Path R) (s : R) : Except (Failure R) (PathPoint R) :=
  let i := lowerIndex (p.points.map (·.s)) s
  match p.points[i - 1]?, p.points[i]? with
  | some a, some b => .ok (if i = 0 then b else between a b s)
  | some a, none => .ok a
  | none, _ => .error (.invalid .emptyPath)

end Path

end JerkPlan
