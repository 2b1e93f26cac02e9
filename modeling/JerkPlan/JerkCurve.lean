import JerkPlan.Failure
import JerkPlan.Lookup

/-!
# Curves of piecewise constant jerk

A quantity over time, or over distance, whose third derivative is constant on
each of a chain of segments. A segment is known by the state it starts in, its
jerk and its length; the closed forms of constant jerk give value and
derivatives anywhere on it, and the next segment starts in the state in which
it ends. Before the first segment and after the last one the curve goes on as
these two do, and a curve without segments is constant in each of its
derivatives.

## Main definitions

* `JerkSegment`: A stretch of constant jerk.
* `JerkSegment.eval`: Its value and derivatives.
* `JerkCurve`: A chain of segments from a starting state.
* `JerkCurve.append`: One more segment at the end.
* `JerkCurve.eval`: Value and derivatives of the whole curve.
-/

namespace JerkPlan

/-- A stretch of constant jerk that starts with value `p`, first derivative
    `v` and second derivative `a`. -/
structure JerkSegment (R : Type) where
  p : R
  v : R
  a : R
  jerk : R
  length : R

/-- A value with its first two derivatives. -/
structure Motion (R : Type) where
  p : R
  v : R
  a : R

variable {R : Type} [Scalar R]

namespace JerkSegment

/-- The derivative of a given order at a local parameter, the value for order
    zero; orders other than 0 to 3 give zero. -/
def eval (g : JerkSegment R) (order : Int) (x : R) : R :=
  match order with
  | 0 => g.p + g.v * x + decimal 5 1 * g.a * x * x + g.jerk * x * x * x / ((6 : Nat) : R)
  | 1 => g.v + g.a * x + decimal 5 1 * g.jerk * x * x
  | 2 => g.a + g.jerk * x
  | 3 => g.jerk
  | _ => 0

/-- The state in which the segment ends. -/
def finish (g : JerkSegment R) : Motion R :=
  ⟨g.eval 0 g.length, g.eval 1 g.length, g.eval 2 g.length⟩

/-- A segment of positive length from a state. -/
def make (start : Motion R) (jerk length : R) : Except (Failure R) (JerkSegment R) :=
  if length ≤ 0 then .error (.invalid (.notPositive "segment length" (some length)))
  else .ok ⟨start.p, start.v, start.a, jerk, length⟩

end JerkSegment

/-- A chain of segments from a starting state, with the parameter at the end
    of each. -/
structure JerkCurve (R : Type) where
  start : Motion R
  segments : List (JerkSegment R)
  breaks : List R

namespace JerkCurve

/-- The curve without segments. -/
def ofStart (start : Motion R) : JerkCurve R := ⟨start, [], []⟩

/-- The parameter at the end of the last segment. -/
def length (c : JerkCurve R) : R := c.breaks.getLast?.getD 0

/-- The state in which the curve ends. -/
def finish (c : JerkCurve R) : Motion R := c.segments.getLast?.elim c.start JerkSegment.finish

/-- The curve with one more segment, which starts where it ends. -/
def append (c : JerkCurve R) (jerk length : R) : Except (Failure R) (JerkCurve R) := do
  let g ← JerkSegment.make c.finish jerk length
  let stop := c.breaks.getLast?.elim length (· + length)
  pure { c with segments := c.segments ++ [g], breaks := c.breaks ++ [stop] }

/-- The derivative of a given order at a parameter, the value for order zero. -/
def eval (c : JerkCurve R) (order : Int) (x : R) : R :=
  let i := min (lowerIndex c.breaks x) (c.segments.length - 1)
  match c.segments[i]? with
  | some g => g.eval order (if i = 0 then x else c.breaks[i - 1]?.elim x (x - ·))
  | none =>
    match order with
    | 0 => c.start.p
    | 1 => c.start.v
    | 2 => c.start.a
    | _ => 0

end JerkCurve

end JerkPlan
