import JerkPlan.Outcome
import JerkPlan.Region
import JerkPlan.Settings
import JerkPlan.SpeedSeries

/-!
# Corridors

The stretch of road that is free at each knot of the horizon.

At every knot the whole path is free to begin with, and each region that is
active at that time cuts some of it off. In the soft mode a knot gets two
intervals. The hard one keeps the gaps that must be kept and the soft one the
distances one would like to keep: the full following distance behind others,
and some room after overtaking. Cutting off never leaves nothing. An interval
that closes is opened again by a margin, first away from the start of the
path, then by lowering the floor below the ceiling, and the hard ceiling never
cuts into the way the vehicle needs for an emergency stop.

In the simple mode margins are fixed, there are no soft intervals, and an
interval that closes is a failure.

Cutting off is taking least ceilings and greatest floors, so the order of the
regions does not matter.

## Main definitions

* `Corridor`: The hard and the soft intervals of all knots.
* `followDistance`: The distance one would like to keep behind others.
* `clampPair`: Opening an interval that has closed.
* `Corridor.withSoft`, `Corridor.simple`: The two modes.
* `Corridor.compile`: The mode that the settings ask for.
-/

namespace JerkPlan

/-- The hard and the soft intervals of the knots, as pairs of ends. In the
    simple mode there are no soft ones. -/
structure Corridor (R : Type) where
  hard : List (R × R)
  soft : List (R × R)

/-- The two intervals of one knot. -/
structure Opening (R : Type) where
  lower : R
  upper : R
  softLower : R
  softUpper : R

variable {R : Type} [Scalar R]

/-- The distance one would like to keep at a speed, never less than the gap
    that must be kept. -/
def followDistance (speed gap : R) (c : Comfort R) : R :=
  greater gap (c.followDistance + lesser c.followCap (c.followTime * greater 0 speed))

/-- Open an interval that has closed: the ceiling must be above the base, and
    the floor below the ceiling. -/
def clampPair (lower upper base margin : R) : R × R :=
  let upper := if upper ≤ base then base + margin else upper
  (if upper ≤ lower then upper - margin else lower, upper)

namespace Opening

/-- Everything up to a length. -/
def whole (length : R) : Opening R := ⟨0, length, 0, length⟩

/-- The opening below two ceilings. -/
def cap (o : Opening R) (hard soft : R) : Opening R :=
  { o with upper := lesser o.upper hard, softUpper := lesser o.softUpper soft }

/-- The opening above two floors. -/
def raise (o : Opening R) (hard soft : R) : Opening R :=
  { o with lower := greater o.lower hard, softLower := greater o.softLower soft }

end Opening

/-- The times of the knots. -/
def knotTimes (knots : Int) (step : R) : List R :=
  (List.range knots.toNat).map fun (i : Nat) => (i : R) * step

namespace Corridor

/-- What a region cuts off a knot's opening at a time, given the speed one
    expects to have then. -/
def cut (c : Comfort R) (p : PlanSettings R) (t speed : R) (o : Opening R) (r : Region R) :
    Except (Failure R) (Opening R) :=
  match r.passage t with
  | none => .ok o
  | some passage =>
    match r.manoeuvre, passage with
    | .stop, .below ceiling => .ok (o.cap ceiling ceiling)
    | .yield, .below ceiling => .ok (o.cap (ceiling - r.gap t) ceiling)
    | .follow, .below ceiling =>
      .ok (o.cap (ceiling - r.gap t) (ceiling - followDistance speed (r.gap t) c))
    | .overtake, .above floor => .ok (o.raise floor (floor + p.overtakeMargin))
    | .other kind, _ => .error (.invalid (.regionKind kind))
    | _, _ => .ok o

/-- The reason of a corridor that closes. -/
def crossed : String := "s_lower_bound larger than s_upper_bound on STGraph"

/-- The reason of a corridor that lacks the expected speed. -/
def noSpeed : String := "rough speed profile estimation for soft follow fence failed"

/-- The opening of one knot in the soft mode. Without regions neither the
    expected speed nor the emergency stop is looked at. -/
def softOpening (regions : List (Region R)) (length : R) (rough : SpeedSeries R)
    (brake : Option (SpeedSeries R)) (c : Comfort R) (p : PlanSettings R) (knot : Nat) (t : R) :
    Outcome R (Opening R) := do
  let stop := if regions.isEmpty then none else brake.bind (·.byTime t)
  let speed ←
    if regions.isEmpty then pure 0
    else
      match rough.byTime t with
      | some here => pure here.v
      | none => Outcome.complain noSpeed (.stage (.input noSpeed))
  let o ← Outcome.of (regions.foldlM (cut c p t speed) (Opening.whole length))
  let (lower, upper) := clampPair o.lower o.upper 0 p.boundMargin
  let (softLower, softUpper) := clampPair o.softLower o.softUpper 0 p.boundMargin
  let upper := stop.elim upper fun here => greater upper (here.s + p.brakeMargin)
  if upper < lower then
    Outcome.tell (.crossedBounds t lower upper)
    Outcome.fail (.stage (.corridor crossed (some knot)))
  else
    Outcome.tell (.knotBounds t lower upper softLower softUpper)
    pure ⟨lower, upper, softLower, softUpper⟩

/-- What a region cuts off an interval at a time in the simple mode. -/
def simpleCut (p : PlanSettings R) (t : R) (o : R × R) (r : Region R) :
    Except (Failure R) (R × R) :=
  match r.passage t with
  | none => .ok o
  | some passage =>
    match r.manoeuvre, passage with
    | .stop, .below ceiling | .yield, .below ceiling => .ok (o.1, lesser o.2 ceiling)
    | .follow, .below ceiling => .ok (o.1, lesser o.2 (ceiling - p.followMargin))
    | .overtake, .above floor => .ok (greater o.1 floor, o.2)
    | .other kind, _ => .error (.invalid (.regionKind kind))
    | _, _ => .ok o

/-- The interval of one knot in the simple mode. -/
def simpleInterval (regions : List (Region R)) (length : R) (p : PlanSettings R) (knot : Nat)
    (t : R) : Outcome R (R × R) := do
  let (lower, upper) ← Outcome.of (regions.foldlM (simpleCut p t) (0, length))
  if upper < lower then
    Outcome.tell (.crossedBounds t lower upper)
    Outcome.fail (.stage (.corridor crossed (some knot)))
  else pure (lower, upper)

/-- Openings for the times of a list, the first one being that of knot `i`. -/
def openings {α : Type} (opening : Nat → R → Outcome R α) : Nat → List R → Outcome R (List α)
  | _, [] => pure []
  | i, t :: ts => do
    let o ← opening i t
    let os ← openings opening (i + 1) ts
    pure (o :: os)

/-- The corridor with soft intervals. -/
def withSoft (regions : List (Region R)) (knots : Int) (step length : R) (rough : SpeedSeries R)
    (brake : Option (SpeedSeries R)) (c : Comfort R) (p : PlanSettings R) :
    Outcome R (Corridor R) := do
  let os ← openings (softOpening regions length rough brake c p) 0 (knotTimes knots step)
  pure ⟨os.map fun o => (o.lower, o.upper), os.map fun o => (o.softLower, o.softUpper)⟩

/-- The corridor with fixed margins and hard intervals alone. -/
def simple (regions : List (Region R)) (knots : Int) (step length : R) (p : PlanSettings R) :
    Outcome R (Corridor R) := do
  let os ← openings (simpleInterval regions length p) 0 (knotTimes knots step)
  pure ⟨os, []⟩

/-- The corridor that the settings ask for. -/
def compile (regions : List (Region R)) (knots : Int) (step length : R) (rough : SpeedSeries R)
    (brake : Option (SpeedSeries R)) (c : Comfort R) (p : PlanSettings R) :
    Outcome R (Corridor R) :=
  if c.softBounds then withSoft regions knots step length rough brake c p
  else simple regions knots step length p

end Corridor

end JerkPlan
