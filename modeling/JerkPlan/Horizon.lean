import JerkPlan.Corridor
import JerkPlan.KnotProblem

/-!
# Horizons

What one cycle plans for: the state in which the vehicle starts, the knots of
the time ahead, the limits of the motion, and the corridor it must stay in.

## Main definitions

* `Horizon`: The problem of one cycle.
* `KnotProfile.valid`: A profile that can be published.
* `Checkpoint`: The best profile found so far.
-/

namespace JerkPlan

/-- The start of a cycle, its knots, its limits and its corridor. The top
    speed lies above both the legal limit and the initial speed. -/
structure Horizon (R : Type) where
  place : R
  speed : R
  acceleration : R
  step : R
  knots : Int
  length : R
  time : R
  legalSpeed : R
  topSpeed : R
  minAcceleration : R
  maxAcceleration : R
  minJerk : R
  maxJerk : R
  corridor : Corridor R
  cruiseSpeed : R

namespace Horizon

variable {R : Type} [Scalar R]

/-- The state in which the vehicle starts. -/
def start (h : Horizon R) : List R := [h.place, h.speed, h.acceleration]

/-- The times of the knots. -/
def times (h : Horizon R) : List R := knotTimes h.knots h.step

end Horizon

namespace KnotProfile

variable {R : Type}

/-- How many knots a profile has. -/
def size (k : KnotProfile R) : Nat := k.p.length

/-- A profile that can be published has a value of each kind at every knot,
    and at least one knot. -/
def valid (k : KnotProfile R) : Bool :=
  decide (0 < k.p.length) && k.p.length == k.v.length && k.v.length == k.a.length

end KnotProfile

/-- The best profile so far, the stage it comes from, whether it replaced an
    earlier one, and why the last attempt to replace it failed. -/
structure Checkpoint (R : Type) where
  profile : KnotProfile R
  stage : String
  upgraded : Bool := false
  reason : Option String := none

namespace Checkpoint

variable {R : Type}

/-- Stay with the profile, for a reason. -/
def keep (c : Checkpoint R) (reason : String) : Checkpoint R := { c with reason := some reason }

/-- Go over to a new profile, unless it is invalid or of another size. -/
def upgrade (c : Checkpoint R) (profile : KnotProfile R) (stage : String) : Checkpoint R :=
  if !profile.valid || profile.size != c.profile.size then
    c.keep (stage ++ " returned an invalid profile")
  else { profile, stage, upgraded := true }

end Checkpoint

end JerkPlan
