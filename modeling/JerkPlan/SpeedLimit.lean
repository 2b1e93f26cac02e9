import JerkPlan.Failure
import JerkPlan.Lookup

/-!
# Speed limits

The legal speed along a path, as points of distance and limit in order. The
limit that holds at a distance is that of the first point at or beyond it,
and that of the last point further on.

## Main definitions

* `SpeedLimit`: Points of distance and limit.
* `SpeedLimit.limitAt`: The limit that holds at a distance.
* `SpeedLimit.constant`: One limit over a stretch of road.
-/

namespace JerkPlan

/-- Points of distance and limit. -/
structure SpeedLimit (R : Type) where
  points : List (R × R)

namespace SpeedLimit

variable {R : Type} [Scalar R]

/-- The limit with the given points, put in order. -/
def ofList (points : List (R × R)) : SpeedLimit R := ⟨arrange pairBelow points⟩

/-- One more point at the end. A distance before the last one is refused. -/
def append (l : SpeedLimit R) (s v : R) : Except (Failure R) (SpeedLimit R) :=
  match l.points.getLast? with
  | some last =>
    if s < last.1 then .error (.invalid (.earlyPlace s last.1)) else .ok ⟨l.points ++ [(s, v)]⟩
  | none => .ok ⟨[(s, v)]⟩

/-- The limit that holds at a distance. It takes two points to be a limit. -/
def limitAt (l : SpeedLimit R) (s : R) : Except (Failure R) R :=
  if l.points.length < 2 then .error (.invalid .shortLimit)
  else
    match l.points[lowerIndex (l.points.map (·.1)) s]?, l.points.getLast? with
    | some p, _ => .ok p.2
    | none, some last => .ok last.2
    | none, none => .error (.invalid .shortLimit)

/-- The lowest limit anywhere. -/
def lowest (l : SpeedLimit R) : Except (Failure R) R :=
  match l.points with
  | [] => .error (.invalid .emptyMinimum)
  | p :: ps => .ok (ps.foldl (fun m q => lesser m q.2) p.2)

/-- The integer part of a scalar, as a count. -/
def countOf (x : R) : Except (Failure R) Int :=
  match Scalar.truncate x with
  | .ok n => .ok n
  | .error .undefined => .error .undefinedCount
  | .error .infinite => .error .infiniteCount

/-- One limit at points a spacing apart, at least two of them, that cover a
    length up to less than a spacing. -/
def constant (v length spacing : R) : Except (Failure R) (SpeedLimit R) :=
  if same spacing 0 then .error .divisionByZero
  else do
    let n ← countOf (length / spacing)
    pure (ofList ((List.range (max 2 (n + 1)).toNat).map fun (i : Nat) => ((i : R) * spacing, v)))

end SpeedLimit

end JerkPlan
