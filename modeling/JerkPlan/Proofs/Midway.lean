import Mathlib.Algebra.BigOperators.Field
import Mathlib.Algebra.Order.BigOperators.Group.Finset
import JerkPlan.Proofs.FitOutcomes

/-!
# Midway between two points

What the point halfway between two points keeps, and what it is worth.

Rows are linear, so bounds that two points keep are kept between them. The
objective is not: by the parallelogram law the point midway is worth less than
the two on average, by a quarter of the weighted squares of how far they lie
apart. This `spread` has the weights of the program, a square for each variable
and for each change of the second derivative, and none of them is negative when
the weights of the problem are not. So two points without spread agree in
whatever is weighed.

## Main definitions

* `midway`: The point halfway between two points.
* `KnotProblem.spread`: The weighted squares of how far two points are apart.
* `KnotProblem.Agree`: Points that agree in what is weighed.

## Theorems

* `rowValue_midway`, `Constraints.Hold.midway`: What two points keep is kept
  midway.
* `sum_midway`, `sum_changes_midway`: The parallelogram law.
* `KnotProblem.objective_midway`: What the point midway is worth.
* `KnotProblem.Weighted.squares_nonneg`: The weights of squares.
* `KnotProblem.agree_of_spread`: Points without spread agree.
-/

namespace JerkPlan

open Finset

variable {R : Type} [ExactScalar R]

/-! Rows -/

/-- The point halfway between two points. -/
def midway (z z' : Nat → R) (j : Nat) : R := (z j + z' j) / KnotProblem.two

theorem rowValue_midway (z z' : Nat → R) (row : List (Nat × R)) :
    rowValue (midway z z') row = (rowValue z row + rowValue z' row) / 2 := by
  induction row with
  | nil => simp only [rowValue_nil, add_zero, zero_div]
  | cons e row ih =>
      rw [rowValue_cons, rowValue_cons, rowValue_cons, ih, midway, KnotProblem.two_eq]
      ring

/-- Each row has its two bounds. -/
theorem Constraints.hold_iff {c : Constraints R} {z : Nat → R} :
    c.Hold z ↔ ∀ x ∈ c.rows.zip (c.lower.zip c.upper),
      x.2.1 ≤ rowValue z x.1 ∧ rowValue z x.1 ≤ x.2.2 := by
  unfold Hold
  rw [List.zip_map_left, List.forall_mem_map]
  rfl

/-- What two points keep is kept midway between them. -/
theorem Constraints.Hold.midway {c : Constraints R} {z z' : Nat → R} (hz : c.Hold z)
    (hz' : c.Hold z') : c.Hold (midway z z') := by
  rw [hold_iff] at hz hz' ⊢
  intro x hx
  have hrow := hz x hx
  have hrow' := hz' x hx
  rw [rowValue_midway]
  exact ⟨by linarith, by linarith⟩

/-- The parallelogram law for a sum of weighted squares and pulls. -/
theorem sum_midway (n : Nat) (w g x y : Nat → R) :
    ∑ i ∈ range n, (w i * ((x i + y i) / 2) ^ 2 + g i * ((x i + y i) / 2)) =
      (∑ i ∈ range n, (w i * x i ^ 2 + g i * x i) +
          ∑ i ∈ range n, (w i * y i ^ 2 + g i * y i)) / 2 -
        (∑ i ∈ range n, w i * (x i - y i) ^ 2) / 4 := by
  rw [← sum_add_distrib, sum_div, sum_div, ← sum_sub_distrib]
  exact sum_congr rfl fun i _ => by ring

/-- The same for the squares of changes. -/
theorem sum_changes_midway (n : Nat) (x y : Nat → R) :
    ∑ i ∈ range n, ((x (i + 1) + y (i + 1)) / 2 - (x i + y i) / 2) ^ 2 =
      (∑ i ∈ range n, (x (i + 1) - x i) ^ 2 + ∑ i ∈ range n, (y (i + 1) - y i) ^ 2) / 2 -
        (∑ i ∈ range n, ((x (i + 1) - x i) - (y (i + 1) - y i)) ^ 2) / 4 := by
  rw [← sum_add_distrib, sum_div, sum_div, ← sum_sub_distrib]
  exact sum_congr rfl fun i _ => by ring

/-! What is weighed -/

theorem sum_weighted_nonneg {n : Nat} {w : Nat → R} (hw : ∀ i, 0 ≤ w i) (x y : Nat → R) :
    0 ≤ ∑ i ∈ range n, w i * (x i - y i) ^ 2 :=
  sum_nonneg fun i _ => mul_nonneg (hw i) (sq_nonneg _)

/-- Where the weighted squares of differences add up to nothing, there is no
    difference that has a weight. -/
theorem eq_of_sum_weighted {n : Nat} {w x y : Nat → R} (hw : ∀ i, 0 ≤ w i)
    (h : ∑ i ∈ range n, w i * (x i - y i) ^ 2 ≤ 0) {i : Nat} (hi : i < n) (hpos : 0 < w i) :
    x i = y i := by
  have hzero := (sum_eq_zero_iff_of_nonneg fun i _ => mul_nonneg (hw i) (sq_nonneg _)).mp
    (le_antisymm h (sum_weighted_nonneg hw x y)) i (mem_range.mpr hi)
  rcases mul_eq_zero.mp hzero with hnone | hsquare
  · exact absurd hnone hpos.ne'
  · exact sub_eq_zero.mp (pow_eq_zero_iff two_ne_zero |>.mp hsquare)

/-- Parts that are not negative are nothing where their sum is not positive. -/
theorem parts_nonpos {a b c d : R} (ha : 0 ≤ a) (hb : 0 ≤ b) (hc : 0 ≤ c) (hd : 0 ≤ d)
    (h : a + b + c + d ≤ 0) : a ≤ 0 ∧ b ≤ 0 ∧ c ≤ 0 ∧ d ≤ 0 :=
  ⟨by linarith, by linarith, by linarith, by linarith⟩

namespace KnotProblem

variable {q : KnotProblem R} {z z' : Nat → R}

/-- The weighted squares of how far two points are apart, at all knots and over
    all steps. -/
def spread (q : KnotProblem R) (z z' : Nat → R) : R :=
  let s := stateAt q.knots z
  let s' := stateAt q.knots z'
  ∑ i ∈ range q.knots, q.pSquare i * ((s i).p - (s' i).p) ^ 2 +
    ∑ i ∈ range q.knots, q.vSquare i * ((s i).v - (s' i).v) ^ 2 +
    ∑ i ∈ range q.knots, q.aSquare i * ((s i).a - (s' i).a) ^ 2 +
    ∑ i ∈ range (q.knots - 1), q.jerkWeight / (q.step * q.step) *
      (((s (i + 1)).a - (s i).a) - ((s' (i + 1)).a - (s' i).a)) ^ 2

/-- The point midway is worth what its ends are worth on average, less a quarter
    of their spread. -/
theorem objective_midway (hq : q.WellFormed) (hkind : q.kind ≠ .bare)
    {program : QuadraticProgram R} (hprogram : q.program = .ok program) (z z' : Nat → R) :
    program.objective (midway z z') =
      (program.objective z + program.objective z') / 2 - q.spread z z' / 4 := by
  have hvalues (g : Nat → R) := sum_midway q.knots q.pSquare g
    (fun i => (stateAt q.knots z i).p) fun i => (stateAt q.knots z' i).p
  have hslopes (g : Nat → R) := sum_midway q.knots q.vSquare g
    (fun i => (stateAt q.knots z i).v) fun i => (stateAt q.knots z' i).v
  have hbends (g : Nat → R) := sum_midway q.knots q.aSquare g
    (fun i => (stateAt q.knots z i).a) fun i => (stateAt q.knots z' i).a
  have hchanges := sum_changes_midway (q.knots - 1)
    (fun i => (stateAt q.knots z i).a) fun i => (stateAt q.knots z' i).a
  rw [objective_eq hq hkind hprogram, objective_eq hq hkind hprogram,
    objective_eq hq hkind hprogram, spread]
  simp only [stateAt, midway, two_eq] at hvalues hslopes hbends hchanges ⊢
  rw [hvalues, hslopes, hbends, hchanges, ← mul_sum]
  ring

/-- Weights that are not negative add up to squares that are not. -/
theorem Weighted.squares_nonneg (hq : q.Weighted) (i : Nat) :
    0 ≤ q.pSquare i ∧ 0 ≤ q.vSquare i ∧ 0 ≤ q.aSquare i := by
  have hreference : 0 ≤ q.reference.elim 0 fun r => (r.1[i]?).getD 0 := by
    rcases hr : q.reference with _ | r
    · exact le_rfl
    · rcases hw : r.1[i]? with _ | w
      · simp only [Option.elim_some, hw, Option.getD_none, le_refl]
      · simp only [Option.elim_some, hw, Option.getD_some]
        exact hq.reference r hr w (List.mem_of_getElem? hw)
  have hslope : 0 ≤ q.slopeReference.elim q.vWeight fun r => q.vWeight + r.1 := by
    rcases hr : q.slopeReference with _ | r
    · exact hq.slopes
    · exact add_nonneg hq.slopes (hq.slope r hr)
  have hfinal : 0 ≤ q.finalWeights.p ∧ 0 ≤ q.finalWeights.v ∧ 0 ≤ q.finalWeights.a := by
    rw [finalWeights]
    rcases hr : q.finalReference with _ | r
    · exact ⟨le_rfl, le_rfl, le_rfl⟩
    · exact hq.final r hr
  -- The last knot's target adds its weight there and nothing elsewhere.
  have hadd {w x : R} (hw : 0 ≤ w) (hx : 0 ≤ x) : 0 ≤ w + if i + 1 = q.knots then x else 0 := by
    split
    · exact add_nonneg hw hx
    · rw [add_zero]
      exact hw
  rw [pSquare, vSquare, aSquare, withFinal_eq q (·.p) rfl, withFinal_eq q (·.v) rfl,
    withFinal_eq q (·.a) rfl]
  exact ⟨hadd (add_nonneg hq.values hreference) hfinal.1, hadd hslope hfinal.2.1,
    hadd hq.bends hfinal.2.2⟩

theorem spread_nonneg (hq : q.Weighted) (hstep : 0 < q.step) (z z' : Nat → R) :
    0 ≤ q.spread z z' := by
  have hsquare : 0 < q.step * q.step := mul_pos hstep hstep
  refine add_nonneg (add_nonneg (add_nonneg ?_ ?_) ?_) ?_
  · exact sum_weighted_nonneg (fun i => (hq.squares_nonneg i).1) _ _
  · exact sum_weighted_nonneg (fun i => (hq.squares_nonneg i).2.1) _ _
  · exact sum_weighted_nonneg (fun i => (hq.squares_nonneg i).2.2) _ _
  · exact sum_weighted_nonneg (fun _ => div_nonneg hq.changes hsquare.le) _ _

/-- Two points agree in whatever of a knot has a weight, and in the changes over
    a step if these have one. -/
structure Agree (q : KnotProblem R) (z z' : Nat → R) : Prop where
  values : ∀ i, i < q.knots → 0 < q.pSquare i → (stateAt q.knots z i).p = (stateAt q.knots z' i).p
  slopes : ∀ i, i < q.knots → 0 < q.vSquare i → (stateAt q.knots z i).v = (stateAt q.knots z' i).v
  bends : ∀ i, i < q.knots → 0 < q.aSquare i → (stateAt q.knots z i).a = (stateAt q.knots z' i).a
  changes : ∀ i, i + 1 < q.knots → 0 < q.jerkWeight →
    (stateAt q.knots z (i + 1)).a - (stateAt q.knots z i).a =
      (stateAt q.knots z' (i + 1)).a - (stateAt q.knots z' i).a

/-- Points without spread agree where something is weighed. -/
theorem agree_of_spread (hstep : 0 < q.step) (hq : q.Weighted) (h : q.spread z z' ≤ 0) :
    q.Agree z z' := by
  have hsquare : 0 < q.step * q.step := mul_pos hstep hstep
  have hp (i : Nat) := (hq.squares_nonneg i).1
  have hv (i : Nat) := (hq.squares_nonneg i).2.1
  have ha (i : Nat) := (hq.squares_nonneg i).2.2
  have hj (_ : Nat) := div_nonneg hq.changes hsquare.le
  let s := stateAt q.knots z
  let s' := stateAt q.knots z'
  let change (s : Nat → Motion R) (i : Nat) := (s (i + 1)).a - (s i).a
  -- No block is negative, so none of them is more than nothing.
  rcases parts_nonpos (sum_weighted_nonneg hp (fun i => (s i).p) fun i => (s' i).p)
    (sum_weighted_nonneg hv (fun i => (s i).v) fun i => (s' i).v)
    (sum_weighted_nonneg ha (fun i => (s i).a) fun i => (s' i).a)
    (sum_weighted_nonneg hj (change s) (change s')) h with ⟨hvalues, hslopes, hbends, hchanges⟩
  constructor
  · exact fun i hi => eq_of_sum_weighted hp hvalues hi
  · exact fun i hi => eq_of_sum_weighted hv hslopes hi
  · exact fun i hi => eq_of_sum_weighted ha hbends hi
  · intro i hi hpos
    have hlast : i < q.knots - 1 := by omega
    exact eq_of_sum_weighted hj hchanges hlast (div_pos hpos hsquare)

end KnotProblem

end JerkPlan
