import Mathlib.Algebra.Order.Archimedean.Basic
import Mathlib.Data.Rat.Floor
import Mathlib.Tactic.FieldSimp
import Mathlib.Tactic.LinearCombination
import Mathlib.Tactic.Linarith
import Mathlib.Tactic.Ring
import JerkPlan.Endpoint
import JerkPlan.Lookup

/-!
# Exact scalars

What the operations on scalars mean when nothing is rounded.

`Scalar` assumes no laws, since machine numbers keep none. Exact arithmetic is
any ordered field with its own operations and order, and with a truncation
that gives the integer part. Every statement about exact planning is made for
all such scalars at once; the rational numbers are the ones that also run.

In an ordered field everything compares, so the choices between two scalars
become the usual minimum and maximum, `same` is equality, and a decimal
constant is the number it is written as. For the choices the order is enough:
`OrderedScalar` leaves arithmetic free to round. Where something is taken away
from a scalar, `RoundedScalar` asks of the rounding only that it keeps the
order and changes nothing where there is nothing to round, and `GradualScalar`
that it does not lose the sign of what is left.

## Main definitions

* `OrderedScalar`: Scalars in a linear order.
* `RoundedScalar`: Scalars whose arithmetic rounds but keeps the order.
* `GradualScalar`: Scalars whose differences have the right sign besides.
* `ExactScalar`: Scalars that compute exactly.

## Theorems

* `lesser_eq_min`, `greater_eq_max`: Choosing between two scalars.
* `magnitude_eq_abs`: The magnitude is the absolute value.
* `same_iff`: Equality by comparison is equality.
* `decimal_eq`: A decimal constant is its quotient.
* `ceiling_eq`: Rounding up.
* `isFinite_eq_true`: Every exact scalar has an integer part.
* `Endpoint.clip_finite`: A number of moderate size is not clipped.
-/

namespace JerkPlan

/-- Scalars in a linear order. Nothing is assumed of their arithmetic. -/
class OrderedScalar (R : Type) extends LinearOrder R, Scalar R

/-- Scalars in a linear order whose arithmetic may round. Whoever takes away
    more is left with no more, and zero makes no difference. -/
class RoundedScalar (R : Type) extends OrderedScalar R where
  sub_le_sub_left (a b c : R) (h : a ≤ b) : c - b ≤ c - a
  sub_zero (a : R) : a - 0 = a
  zero_add (a : R) : 0 + a = a

/-- Scalars whose arithmetic may round, but keeps the sign of a difference. -/
class GradualScalar (R : Type) extends RoundedScalar R where
  sub_nonneg_iff (a b : R) : 0 ≤ a - b ↔ b ≤ a

/-- Scalars that compute exactly: an ordered field in which truncation gives
    the integer part, towards zero. -/
class ExactScalar (R : Type) extends Field R, LinearOrder R, Scalar R, IsStrictOrderedRing R where
  integral_of_nonneg (a : R) (h : 0 ≤ a) :
    ∃ n : Int, Scalar.truncate a = .ok n ∧ (n : R) ≤ a ∧ a < n + 1
  integral_of_nonpos (a : R) (h : a ≤ 0) :
    ∃ n : Int, Scalar.truncate a = .ok n ∧ a ≤ n ∧ (n : R) < a + 1

instance {R : Type} [scalar : ExactScalar R] : OrderedScalar R where
  toLinearOrder := scalar.toLinearOrder
  decLt := scalar.decLt
  decLe := scalar.decLe
  truncate := scalar.truncate

instance {R : Type} [ExactScalar R] : RoundedScalar R where
  sub_le_sub_left _ _ c h := sub_le_sub_left h c
  sub_zero := sub_zero
  zero_add := zero_add

instance {R : Type} [ExactScalar R] : GradualScalar R where
  sub_nonneg_iff _ _ := sub_nonneg

theorem truncate_rat (q : Rat) : Scalar.truncate q = .ok (q.num.tdiv q.den) := rfl

theorem tdiv_eq_floor {q : Rat} (h : 0 ≤ q) : q.num.tdiv q.den = ⌊q⌋ := by
  rw [Int.tdiv_eq_ediv_of_nonneg (Rat.num_nonneg.mpr h), Rat.floor_def']

theorem tdiv_eq_ceil {q : Rat} (h : q ≤ 0) : q.num.tdiv q.den = ⌈q⌉ := by
  have hneg : (-q).num.tdiv (-q).den = ⌊-q⌋ := tdiv_eq_floor (neg_nonneg.mpr h)
  rw [Rat.num_neg_eq_neg_num, Rat.den_neg_eq_den, Int.neg_tdiv, Int.floor_neg] at hneg
  omega

instance : ExactScalar Rat where
  integral_of_nonneg q h := by
    refine ⟨⌊q⌋, ?_, Int.floor_le q, Int.lt_floor_add_one q⟩
    rw [truncate_rat, tdiv_eq_floor h]
  integral_of_nonpos q h := by
    refine ⟨⌈q⌉, ?_, Int.le_ceil q, Int.ceil_lt_add_one q⟩
    rw [truncate_rat, tdiv_eq_ceil h]

section Ordered

variable {R : Type} [OrderedScalar R]

theorem lesser_eq_min (a b : R) : lesser a b = min a b := by
  unfold lesser
  by_cases h : b < a
  · rw [if_pos h, min_eq_right h.le]
  · rw [if_neg h, min_eq_left (not_lt.mp h)]

theorem greater_eq_max (a b : R) : greater a b = max a b := by
  unfold greater
  by_cases h : a < b
  · rw [if_pos h, max_eq_right h.le]
  · rw [if_neg h, max_eq_left (not_lt.mp h)]

end Ordered

variable {R : Type} [ExactScalar R]

section Order

-- All of these follow from the class. Without them a search for one of them passes through
-- every ordered structure there is before it comes to the class.

instance ExactScalar.isOrderedRing : IsOrderedRing R := inferInstance

instance ExactScalar.isOrderedAddMonoid : IsOrderedAddMonoid R := inferInstance

instance ExactScalar.zeroLEOneClass : ZeroLEOneClass R := inferInstance

instance ExactScalar.addLeftMono : AddLeftMono R := inferInstance

instance ExactScalar.addRightMono : AddRightMono R := inferInstance

instance ExactScalar.addLeftStrictMono : AddLeftStrictMono R := inferInstance

instance ExactScalar.addRightStrictMono : AddRightStrictMono R := inferInstance

instance ExactScalar.existsAddOfLE : ExistsAddOfLE R := inferInstance

instance ExactScalar.posMulMono : PosMulMono R := inferInstance

instance ExactScalar.mulPosMono : MulPosMono R := inferInstance

instance ExactScalar.posMulStrictMono : PosMulStrictMono R := inferInstance

instance ExactScalar.mulPosStrictMono : MulPosStrictMono R := inferInstance

end Order

theorem truncate_of_nonneg {a : R} (h : 0 ≤ a) :
    ∃ n : Int, Scalar.truncate a = .ok n ∧ (n : R) ≤ a ∧ a < n + 1 :=
  ExactScalar.integral_of_nonneg a h

theorem truncate_of_nonpos {a : R} (h : a ≤ 0) :
    ∃ n : Int, Scalar.truncate a = .ok n ∧ a ≤ n ∧ (n : R) < a + 1 :=
  ExactScalar.integral_of_nonpos a h

theorem magnitude_eq_abs (a : R) : magnitude a = |a| := by
  unfold magnitude
  by_cases h : a < 0
  · rw [if_pos h, abs_of_neg h]
  · rw [if_neg h, abs_of_nonneg (not_lt.mp h)]

theorem same_iff (a b : R) : same a b = true ↔ a = b := by
  simp only [same, Bool.and_eq_true, decide_eq_true_eq]
  exact ⟨fun h => le_antisymm h.1 h.2, fun h => ⟨h.le, h.ge⟩⟩

theorem same_eq_false {a b : R} (h : a ≠ b) : same a b = false := by
  rw [← Bool.not_eq_true, same_iff]
  exact h

theorem decimal_eq (m k : Nat) : (decimal m k : R) = m / 10 ^ k := by
  simp only [decimal, Nat.pow_eq, Nat.cast_pow, Nat.cast_ofNat]

theorem decimal_pos {m : Nat} (h : 0 < m) (k : Nat) : (0 : R) < decimal m k := by
  rw [decimal_eq]
  positivity

/-- The constant one half. -/
theorem half_eq : (decimal 5 1 : R) = 1 / 2 := by
  rw [decimal_eq, pow_one]
  norm_num

/-- The least integer at or above a scalar. -/
theorem ceiling_eq (a : R) : ∃ n : Int, ceiling a = .ok n ∧ a ≤ n ∧ (n : R) < a + 1 := by
  rcases le_total 0 a with h | h
  · rcases truncate_of_nonneg h with ⟨n, hn, hle, hlt⟩
    by_cases hbelow : (n : R) < a
    · refine ⟨n + 1, by simp only [ceiling, hn, Except.map, if_pos hbelow], ?_, ?_⟩
      · rw [Int.cast_add, Int.cast_one]
        exact hlt.le
      · rw [Int.cast_add, Int.cast_one]
        exact add_lt_add_left hbelow 1
    · exact ⟨n, by simp only [ceiling, hn, Except.map, if_neg hbelow], not_lt.mp hbelow,
        lt_of_le_of_lt hle (lt_add_one a)⟩
  · rcases truncate_of_nonpos h with ⟨n, hn, hle, hlt⟩
    exact ⟨n, by simp only [ceiling, hn, Except.map, if_neg (not_lt.mpr hle)], hle, hlt⟩

theorem isFinite_eq_true (a : R) : isFinite a = true := by
  rcases le_total 0 a with h | h
  · rcases truncate_of_nonneg h with ⟨n, hn, _⟩
    simp only [isFinite, hn]
  · rcases truncate_of_nonpos h with ⟨n, hn, _⟩
    simp only [isFinite, hn]

namespace Endpoint

theorem huge_pos : (0 : R) < huge := by
  unfold huge
  exact_mod_cast Nat.pow_pos (by omega)

/-- A number of magnitude at most `huge` stays as it is. -/
theorem clip_finite {x : R} (hl : -huge ≤ x) (hu : x ≤ huge) : (finite x).clip = x := by
  simp only [clip, if_neg (not_lt.mpr hl), if_neg (not_lt.mpr hu)]

end Endpoint

end JerkPlan
