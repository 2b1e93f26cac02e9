import JerkPlan.Scalar

/-!
# Stopwatches

Elapsed time of a stage in milliseconds, from two readings of a clock in
seconds. A stopwatch that was never stopped shows zero, and stopping one does
not hold back a failure of what it timed.

## Main definitions

* `Stopwatch`: A start and what was measured.
* `Stopwatch.started`, `Stopwatch.stopped`: Starting and stopping.
-/

namespace JerkPlan

/-- The reading at the start, and the milliseconds measured. -/
structure Stopwatch (R : Type) where
  start : R
  elapsed : R

namespace Stopwatch

variable {R : Type} [Scalar R]

/-- A stopwatch before its first use. -/
def fresh : Stopwatch R := ⟨0, 0⟩

/-- The stopwatch started at a reading of the clock. -/
def started (w : Stopwatch R) (now : R) : Stopwatch R := { w with start := now }

/-- The stopwatch stopped at a reading of the clock. -/
def stopped (w : Stopwatch R) (now : R) : Stopwatch R :=
  { w with elapsed := (now - w.start) * ((1000 : Nat) : R) }

/-- Whether stopping holds back a failure of what was timed. -/
def holdsBack (_ : Stopwatch R) : Bool := false

end Stopwatch

end JerkPlan
