import Mathlib.Data.List.Forall2
import JerkPlan.Proofs.Exact
import JerkPlan.KnotProblem

/-!
# Ordered bounds

A solver takes a problem only if no lower bound is above its upper bound.

What it looks at are the clipped bounds of all rows, those of continuity and of
the start included. The order of these follows from that of the bounds a
problem was given: clipping is monotone, a positive step turns no bound round,
and the other rows have the same number on both sides. So a problem whose
bounds are ordered before clipping is ordered after it, however large they are.

## Main definitions

* `Endpoint.Below`: One end is not above another.
* `KnotProblem.OrderedBounds`: The bounds a problem was given are ordered.
* `Constraints.Ordered`: The bounds a solver looks at are.

## Theorems

* `Endpoint.Below.clip_le`: Clipping keeps the order.
* `Endpoint.Below.scale`: So does a positive factor.
* `KnotProblem.OrderedBounds.constraints`: The rows of a problem are ordered.
-/

namespace JerkPlan

variable {R : Type} [ExactScalar R]

namespace Endpoint

/-- An end is not above another one. -/
def Below : Endpoint R → Endpoint R → Prop
  | minusInfinity, _ => True
  | _, plusInfinity => True
  | finite x, finite y => x ≤ y
  | _, _ => False

theorem clip_finite_eq (x : R) : (finite x).clip = max (-huge) (min x huge) := by
  have hhuge : (-huge : R) ≤ huge := by linarith [huge_pos (R := R)]
  simp only [clip]
  by_cases hlow : x < -huge
  · rw [if_pos hlow, min_eq_left (hlow.le.trans hhuge), max_eq_left hlow.le]
  · rw [if_neg hlow]
    by_cases hhigh : huge < x
    · rw [if_pos hhigh, min_eq_right hhigh.le, max_eq_right hhuge]
    · rw [if_neg hhigh, min_eq_left (not_lt.mp hhigh), max_eq_right (not_lt.mp hlow)]

/-- Clipping keeps the order. -/
theorem Below.clip_le {l u : Endpoint R} (h : l.Below u) : l.clip ≤ u.clip := by
  have hhuge : (-huge : R) ≤ huge := by linarith [huge_pos (R := R)]
  cases l with
  | minusInfinity =>
      cases u with
      | minusInfinity => exact le_refl _
      | finite y =>
          rw [clip_finite_eq]
          exact le_max_left _ _
      | plusInfinity => exact hhuge
  | finite x =>
      cases u with
      | minusInfinity => exact h.elim
      | finite y =>
          rw [clip_finite_eq, clip_finite_eq]
          exact max_le_max_left _ (min_le_min_right _ h)
      | plusInfinity =>
          rw [clip_finite_eq]
          exact max_le hhuge (min_le_right _ _)
  | plusInfinity =>
      cases u with
      | minusInfinity => exact h.elim
      | finite y => exact h.elim
      | plusInfinity => exact le_refl _

/-- A positive factor keeps the order. -/
theorem Below.scale {l u : Endpoint R} (h : l.Below u) {c : R} (hc : 0 < c) :
    (l.scale c).Below (u.scale c) := by
  -- A positive factor leaves an infinite end where it is.
  cases l with
  | minusInfinity =>
      simp only [Endpoint.scale, if_pos hc]
      trivial
  | finite x =>
      cases u with
      | minusInfinity => exact h.elim
      | finite y => exact mul_le_mul_of_nonneg_right h hc.le
      | plusInfinity =>
          simp only [Endpoint.scale, if_pos hc]
          trivial
  | plusInfinity =>
      cases u with
      | minusInfinity => exact h.elim
      | finite y => exact h.elim
      | plusInfinity =>
          simp only [Endpoint.scale, if_pos hc]
          trivial

end Endpoint

/-- No lower bound of a row is above its upper bound. -/
def Constraints.Ordered (c : Constraints R) : Prop := List.Forall₂ (· ≤ ·) c.lower c.upper

theorem Constraints.Ordered.append {c d : Constraints R} (hc : c.Ordered) (hd : d.Ordered) :
    (c.append d).Ordered :=
  List.rel_append hc hd

/-- Rows that all have the same two bounds. -/
theorem forall₂_replicate {l u : R} (h : l ≤ u) (n : Nat) :
    List.Forall₂ (· ≤ ·) (List.replicate n l) (List.replicate n u) := by
  induction n with
  | zero => exact .nil
  | succ n ih => exact .cons h ih

namespace KnotProblem

/-- The bounds a problem was given are ordered, at every knot and over every
    step. -/
structure OrderedBounds (q : KnotProblem R) : Prop where
  values : ∀ b ∈ q.pBounds, b.1.Below b.2
  slopes : ∀ b ∈ q.vBounds, b.1.Below b.2
  bends : ∀ b ∈ q.aBounds, b.1.Below b.2
  changes : q.jerkBounds.1.Below q.jerkBounds.2

theorem ordered_boundRows (j : Nat) {bounds : List (Endpoint R × Endpoint R)}
    (h : ∀ b ∈ bounds, b.1.Below b.2) : (boundRows j bounds).Ordered := by
  unfold Constraints.Ordered boundRows
  rw [List.forall₂_map_left_iff, List.forall₂_map_right_iff, List.forall₂_same]
  exact fun b hb => (h b hb).clip_le

/-- The rows of a problem are ordered when its bounds are, block by block. -/
theorem OrderedBounds.constraints {q : KnotProblem R} (h : q.OrderedBounds) (hstep : 0 < q.step) :
    q.constraints.Ordered := by
  -- Jerk is bounded over a step, which scales the bounds before they are clipped.
  have hchanges : q.changeRows.Ordered := forall₂_replicate (h.changes.scale hstep).clip_le _
  -- Continuity and the start are equations.
  have hcontinuity : q.continuityRows.Ordered := forall₂_replicate le_rfl _
  have hstart : q.startRows.Ordered := List.forall₂_same.mpr fun _ _ => le_rfl
  exact (ordered_boundRows _ h.values).append <| (ordered_boundRows _ h.slopes).append <|
    (ordered_boundRows _ h.bends).append <| hchanges.append <| hcontinuity.append hstart

end KnotProblem

end JerkPlan
