import JerkPlan.Scalar

/-!
# Ends of intervals

An interval may have no end on either side. An end is therefore a scalar or
one of two infinities, whether or not the scalars themselves have infinite
values. Solvers want numbers only, so `Endpoint.clip` replaces an end by the
nearest number of magnitude at most `10 ^ 30`, and a bound of that size is
read as no bound at all.

## Main definitions

* `Endpoint`: A scalar or an infinity.
* `Endpoint.clip`: The nearest number that a solver takes.
* `Endpoint.atMost`, `Endpoint.atLeast`: A scalar within an end.
-/

namespace JerkPlan

/-- An end of an interval. -/
inductive Endpoint (R : Type)
  | minusInfinity
  | finite (x : R)
  | plusInfinity

namespace Endpoint

variable {R : Type} [Scalar R]

/-- The magnitude that stands for no bound. -/
def huge : R := ((Nat.pow 10 30 : Nat) : R)

/-- The nearest number of magnitude at most `huge`. -/
def clip : Endpoint R → R
  | minusInfinity => -huge
  | plusInfinity => huge
  | finite x => if x < -huge then -huge else if huge < x then huge else x

/-- An end times a factor that is meant to be positive. An infinite end stays
    where it is; times a factor that compares with nothing it is as undefined
    as the factor. -/
def scale (c : R) : Endpoint R → Endpoint R
  | finite x => finite (x * c)
  | e => if 0 < c then e else finite c

/-- A scalar is not above an end. -/
def atMost (x : R) : Endpoint R → Prop
  | minusInfinity => False
  | finite y => x ≤ y
  | plusInfinity => True

/-- A scalar is not below an end. -/
def atLeast (x : R) : Endpoint R → Prop
  | minusInfinity => True
  | finite y => y ≤ x
  | plusInfinity => False

instance (x : R) (e : Endpoint R) : Decidable (e.atMost x) := by
  cases e <;> unfold atMost <;> infer_instance

instance (x : R) (e : Endpoint R) : Decidable (e.atLeast x) := by
  cases e <;> unfold atLeast <;> infer_instance

end Endpoint

end JerkPlan
