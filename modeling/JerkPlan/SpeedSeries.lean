import JerkPlan.Failure
import JerkPlan.Lookup

/-!
# Speed series

Motion along a path over time: distance, speed, acceleration and jerk at a
sequence of times in order. A series is what a cycle starts from, a rough
guess of the motion, what describes an emergency stop, and what the cycle
leaves behind.

A series can be read by time and by distance. Both readings interpolate
linearly between neighbours, reach a millionth beyond either end, and are
undefined further out and on fewer than two samples.

## Main definitions

* `SpeedSample`: The motion at one time.
* `SpeedSeries`: Samples in order of time.
* `SpeedSeries.append`: One more sample, not before the last.
* `SpeedSeries.byTime`, `SpeedSeries.byDistance`: The motion in between.
* `SpeedSeries.fill`: Standing still up to a given time.
-/

namespace JerkPlan

/-- Distance, time, speed, acceleration and jerk. -/
structure SpeedSample (R : Type) where
  s : R
  t : R
  v : R
  a : R
  da : R

/-- Samples in order of time. -/
structure SpeedSeries (R : Type) where
  samples : List (SpeedSample R)

namespace SpeedSeries

variable {R : Type} [Scalar R]

/-- The series without samples. -/
def empty : SpeedSeries R := ⟨[]⟩

/-- The series once its samples are taken away. -/
def clear (_ : SpeedSeries R) : SpeedSeries R := .empty

/-- The series of the given samples; those of one time stay in their order. -/
def ofList (samples : List (SpeedSample R)) : SpeedSeries R :=
  ⟨arrange (fun p q => decide (p.t < q.t)) samples⟩

/-- The same samples once more. -/
def copy (d : SpeedSeries R) : SpeedSeries R := ofList d.samples

/-- The first sample. -/
def front (d : SpeedSeries R) : Except (Failure R) (SpeedSample R) :=
  d.samples.head?.elim (.error .missingEntry) .ok

/-- The last sample. -/
def back (d : SpeedSeries R) : Except (Failure R) (SpeedSample R) :=
  d.samples.getLast?.elim (.error .missingEntry) .ok

/-- A sample by its index. -/
def get (d : SpeedSeries R) (i : Int) : Except (Failure R) (SpeedSample R) :=
  (entry d.samples i).elim (.error .missingEntry) .ok

/-- One more sample at the end. A time before the last one is refused. -/
def append (d : SpeedSeries R) (p : SpeedSample R) : Except (Failure R) (SpeedSeries R) :=
  match d.samples.getLast? with
  | some last =>
    if p.t < last.t then .error (.invalid (.earlyTime p.t last.t)) else .ok ⟨d.samples ++ [p]⟩
  | none => .ok ⟨[p]⟩

/-- The time from the first sample to the last. -/
def totalTime (d : SpeedSeries R) : R :=
  match d.samples.head?, d.samples.getLast? with
  | some p, some q => q.t - p.t
  | _, _ => 0

/-- The distance from the first sample to the last. -/
def totalLength (d : SpeedSeries R) : R :=
  match d.samples.head?, d.samples.getLast? with
  | some p, some q => q.s - p.s
  | _, _ => 0

/-- How far a reading reaches beyond either end. -/
def overhang : R := decimal 1 6

/-- The two neighbours between which a reading falls, by the key read. -/
def bracket (d : SpeedSeries R) (key : SpeedSample R → R) (x : R) :
    Option (SpeedSample R × SpeedSample R) :=
  if d.samples.length < 2 then none
  else
    match d.samples.head?, d.samples.getLast? with
    | some first, some last =>
      if key first < x + overhang ∧ x - overhang < key last then
        let i := max 1 (min (lowerIndex (d.samples.map key) x) (d.samples.length - 1))
        match d.samples[i - 1]?, d.samples[i]? with
        | some p, some q => some (p, q)
        | _, _ => none
      else none
    | _, _ => none

/-- The motion at a time. -/
def byTime (d : SpeedSeries R) (t : R) : Option (SpeedSample R) :=
  (d.bracket (·.t) t).map fun (p, q) =>
    ⟨lerp p.s p.t q.s q.t t, t, lerp p.v p.t q.v q.t t, lerp p.a p.t q.a q.t t,
      lerp p.da p.t q.da q.t t⟩

/-- The motion at a distance. -/
def byDistance (d : SpeedSeries R) (s : R) : Option (SpeedSample R) :=
  (d.bracket (·.s) s).map fun (p, q) =>
    ⟨s, lerp p.t p.s q.t q.s s, lerp p.v p.s q.v q.s s, lerp p.a p.s q.a q.s s,
      lerp p.da p.s q.da q.s s⟩

/-- Standing samples at `s`, one `unit` of time apart, at the times from `t` on
    that lie before `finish`, at most `fuel` of them. -/
def standing (s unit finish : R) : (fuel : Nat) → (t : R) → List (SpeedSample R)
  | 0, _ => []
  | fuel + 1, t =>
    if t < finish then ⟨s, t, 0, 0, 0⟩ :: standing s unit finish fuel (t + unit) else []

/-- No fewer than the number of steps of length `unit` that begin within a
    time. Where numbers are rounded, steps may turn out shorter than their unit,
    or their number infinite, so there is room for more of them than any list
    has. -/
def stepCount (time unit : R) : Nat :=
  match ceiling (time / unit) with
  | .ok n => n.toNat + Nat.pow 2 62
  | .error _ => Nat.pow 2 62

/-- The series with standing samples at its last distance, one `unit` apart,
    as long as they come before `finish`. A series without samples stays as it
    is, and so does one that lasts long enough. A unit that leads back in time
    is refused where a sample would be due. -/
def fill (d : SpeedSeries R) (finish unit : R) : Except (Failure R) (SpeedSeries R) :=
  match d.samples.getLast? with
  | none => .ok d
  | some last =>
    if finish ≤ last.t then .ok d
    else
      let t := last.t + unit
      if t < finish ∧ t < last.t then .error (.invalid (.earlyTime t last.t))
      else .ok ⟨d.samples ++ standing last.s unit finish (stepCount (finish - last.t) unit) t⟩

end SpeedSeries

end JerkPlan
