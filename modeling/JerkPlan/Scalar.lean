/-!
# Scalars

The numbers a plan is made of.

Planning is written once, over any type with the operations of `Scalar`, so
that the same definitions run on machine numbers and speak about exact ones.
No law is assumed here: machine numbers keep none of the field laws, and a
value that compares with nothing, itself included, is among them. For this
reason every choice between two scalars below is written as the comparison
it makes. `lesser` and `greater` keep their first argument unless the second
is strictly better, and `same` asks for both inequalities.

Constants are built from natural numbers. A decimal constant `decimal m k` is
the quotient of `m` by a power of ten, one rounding of two numbers that are
themselves exact as long as the power stays below `10 ^ 23`, hence the machine
number nearest to the decimal.

## Main definitions

* `Scalar`: Arithmetic, comparisons, and truncation to an integer.
* `lesser`, `greater`: The smaller and the larger of two scalars.
* `magnitude`: The absolute value.
* `same`: Equality by comparison.
* `decimal`: A decimal constant.
* `ceiling`: The least integer at or above a scalar.
-/

namespace JerkPlan

/-- Why a scalar has no integer part. -/
inductive NotFinite
  | undefined
  | infinite

/-- Numbers to plan with. -/
class Scalar (R : Type) extends Zero R, One R, Add R, Sub R, Mul R, Div R, Neg R, LT R, LE R,
    NatCast R, IntCast R where
  decLt (a b : R) : Decidable (a < b)
  decLe (a b : R) : Decidable (a ≤ b)
  /-- The integer part, towards zero. -/
  truncate : R → Except NotFinite Int

attribute [reducible, instance] Scalar.decLt Scalar.decLe

instance : Scalar Float where
  natCast := Float.ofNat
  intCast := Float.ofInt
  decLt := inferInstance
  decLe := inferInstance
  truncate x :=
    if x.isNaN then .error .undefined
    else if x.isInf then .error .infinite
    else
      let bits := x.toBits
      let e : Int := ((bits >>> 52) &&& 0x7FF).toNat - 1075
      let m : Nat := (bits &&& 0xFFFFFFFFFFFFF).toNat + Nat.pow 2 52
      let n : Nat := if e < -52 then 0 else if e < 0 then m >>> (-e).toNat else m <<< e.toNat
      .ok (if x < 0.0 then -n else n)

instance : Scalar Rat where
  zero := (0 : Nat)
  one := (1 : Nat)
  decLt := inferInstance
  decLe := inferInstance
  truncate q := .ok (q.num.tdiv q.den)

variable {R : Type} [Scalar R]

/-- The smaller of two scalars, the first unless the second is below it. -/
def lesser (a b : R) : R := if b < a then b else a

/-- The larger of two scalars, the first unless the second is above it. -/
def greater (a b : R) : R := if a < b then b else a

/-- The absolute value. -/
def magnitude (a : R) : R := if a < 0 then -a else a

/-- Whether neither of two scalars is above the other and both compare. -/
def same (a b : R) : Bool := decide (a ≤ b) && decide (b ≤ a)

/-- The constant `m / 10 ^ k`. -/
def decimal (m k : Nat) : R := (m : R) / ((Nat.pow 10 k : Nat) : R)

/-- The least integer at or above a scalar. -/
def ceiling (a : R) : Except NotFinite Int :=
  (Scalar.truncate a).map fun (n : Int) => if ((n : Int) : R) < a then n + 1 else n

/-- Whether a scalar has an integer part. -/
def isFinite (a : R) : Bool :=
  match Scalar.truncate a with
  | .ok _ => true
  | .error _ => false

end JerkPlan
