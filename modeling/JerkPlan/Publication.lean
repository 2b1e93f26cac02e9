import JerkPlan.Horizon

/-!
# Publishing a profile

A profile over knots becomes a speed series: one sample per knot, its jerk
the change of acceleration since the knot before. A published motion ends
before the first knot at which the vehicle would already roll backwards, and
is then continued standing still for as long as its readers need.

## Main definitions

* `profileSamples`: The samples of a profile.
* `publish`: The series of a profile.
* `SpeedSeries.hold`: The same in a buffer.
-/

namespace JerkPlan

variable {R : Type} [Scalar R]

/-- The samples of the knots after one, the first of which has index `i`; the
    knot before has acceleration `before`. With `stopping`, knots from the
    first negative speed on are left out. -/
def samplesAfter (step : R) (stopping : Bool) : (before : R) → (i : Nat) →
    (knots : List (R × R × R)) → Except (Failure R) (List (SpeedSample R))
  | _, _, [] => .ok []
  | before, i, (p, v, a) :: rest =>
    if stopping ∧ v < 0 then .ok []
    else if same step 0 then .error .divisionByZero
    else do
      let more ← samplesAfter step stopping a (i + 1) rest
      pure (⟨p, step * (i : R), v, a, (a - before) / step⟩ :: more)

/-- The samples of a profile; an invalid one has none. The first knot is
    always there, at time zero and without jerk. -/
def profileSamples (k : KnotProfile R) (step : R) (stopping : Bool) :
    Except (Failure R) (List (SpeedSample R)) :=
  if !k.valid then .ok []
  else
    match k.p.zip (k.v.zip k.a) with
    | [] => .ok []
    | (p, v, a) :: rest => do
      let more ← samplesAfter step stopping a 1 rest
      pure (⟨p, 0, v, a, 0⟩ :: more)

/-- Append samples one by one, as far as they are accepted. The series holds
    what was accepted before the first refusal. -/
def appendAll : List (SpeedSample R) → SpeedSeries R → SpeedSeries R × Option (Failure R)
  | [], d => (d, none)
  | p :: ps, d =>
    match d.append p with
    | .ok d => appendAll ps d
    | .error e => (d, some e)

/-- The series of a profile, in place of whatever a buffer held, and what went
    wrong if it is not complete. -/
def publish (k : KnotProfile R) (step : R) : SpeedSeries R × Option (Failure R) :=
  match profileSamples k step true with
  | .ok samples => appendAll samples .empty
  | .error e => (.empty, some e)

/-- Make a buffer hold a profile. What it held before is taken away first, also if the
    profile has no samples. -/
def SpeedSeries.hold (buffer : SpeedSeries R) (k : KnotProfile R) (step : R) :
    SpeedSeries R × Option (Failure R) :=
  match profileSamples k step true with
  | .ok samples => appendAll samples buffer.clear
  | .error e => (buffer.clear, some e)

end JerkPlan
