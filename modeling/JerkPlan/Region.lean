import JerkPlan.Failure
import JerkPlan.Lookup

/-!
# Regions

Where another road user stands in the way: a region of time and distance,
given by its lower and its upper edge, and the way the vehicle deals with it.
When it stops, yields or follows it stays below the lower edge; when it
overtakes it passes above the upper one. Edges are interpolated between their
points and hold beyond them; outside the time span of its lower edge a region
constrains nothing.

A region asks for a gap. Near the time at which the interaction is known to
end, a gap given for that moment widens it.

## Main definitions

* `Manoeuvre`: The way of dealing with a region.
* `Region`: A region with its manoeuvre and gaps.
* `Passage`: What a region leaves free at a time.
* `Region.passage`: The passage at a time.
* `Region.gap`: The gap to keep at a time.
-/

namespace JerkPlan

/-- The way of dealing with a region. An unknown way is kept by its name. -/
inductive Manoeuvre
  | stop
  | yield
  | follow
  | overtake
  | other (name : String)

/-- A region of time and distance: edge points `(t, s)` in order, the gap to
    keep, and the time and gap of the end of the interaction if known. -/
structure Region (R : Type) where
  manoeuvre : Manoeuvre
  lower : List (R × R)
  upper : List (R × R)
  clearance : R
  ending : Option (R × R)

/-- What a region leaves free at a time: everything up to a ceiling or
    everything from a floor on. -/
inductive Passage (R : Type)
  | below (ceiling : R)
  | above (floor : R)

namespace Region

variable {R : Type} [Scalar R]

/-- The region with the given edges, put in order of time. Both edges need two
    points, and equally many. -/
def make (manoeuvre : Manoeuvre) (lower upper : List (R × R)) (clearance : R)
    (ending : Option (R × R)) : Except (Failure R) (Region R) :=
  if lower.length < 2 ∨ lower.length ≠ upper.length then .error (.invalid .regionShape)
  else .ok ⟨manoeuvre, arrange pairBelow lower, arrange pairBelow upper, clearance, ending⟩

/-- The distance of an edge at a time, held at both ends. -/
def edgeAt (edge : List (R × R)) (t : R) : R :=
  let i := lowerIndex (edge.map (·.1)) t
  match edge[i - 1]?, edge[i]? with
  | some p, some q => if i = 0 then q.2 else lerp p.2 p.1 q.2 q.1 t
  | some p, none => p.2
  | none, _ => 0

/-- The first time of the region. -/
def startTime (r : Region R) : R := r.lower.head?.elim 0 (·.1)

/-- The last time of the region. -/
def endTime (r : Region R) : R := r.lower.getLast?.elim 0 (·.1)

/-- What the region leaves free at a time; `none` when it leaves everything. -/
def passage (r : Region R) (t : R) : Option (Passage R) :=
  if t < r.startTime ∨ r.endTime < t then none
  else
    match r.manoeuvre with
    | .overtake => some (.above (greater 0 (edgeAt r.upper t)))
    | _ => some (.below (edgeAt r.lower t))

/-- How near the end of the interaction its own gap counts. -/
def endingTolerance : R := decimal 5 2

/-- The gap to keep at a time. -/
def gap (r : Region R) (t : R) : R :=
  match r.ending with
  | some (time, wide) =>
    if magnitude (time - t) < endingTolerance then greater r.clearance wide else r.clearance
  | none => r.clearance

end Region

end JerkPlan
