import Mathlib.Algebra.Order.BigOperators.Group.Finset
import JerkPlan.Proofs.PlanFits

/-!
# What it costs to leave the soft corridor

The soft corridor of a refinement is paid for, and is never in the way.

A problem has a twin without the soft corridor. Its variables are the states at
the knots, and its bounds and rows are the first ones of the problem, so what it
asks of a point is what the problem asks of the states there. All that is left are
the slacks and the rows that they ease. Together these say that a slack is at least
as large as the distance by which a place is outside of its interval: `Eased`.
Nothing limits slacks from above, so any states that the twin allows have some that
will do, `withSlacks`.

Slacks add to the cost by their sum and enter nowhere else. So the cheapest ones are
those that are as small as they can be, and what leaving the corridor costs is the
weight times the distance outside of it, over all knots and both sides.

## Main definitions

* `RefinementProblem.withoutSoft`: The twin without the soft corridor.
* `RefinementProblem.Eased`: Slacks that are large enough.
* `RefinementProblem.outside`: How far places are outside of their soft intervals.
* `RefinementProblem.slackSum`: All slacks together.

## Theorems

* `RefinementProblem.variableBounds_withoutSoft`,
  `RefinementProblem.rows_withoutSoft`: The bounds and rows of the twin come first.
* `RefinementProblem.kept_withoutSoft_iff`: What the twin asks of a point.
* `RefinementProblem.asks_iff`, `RefinementProblem.kept_iff_eased`: The problem asks for
  what its twin does, and for slacks.
* `RefinementProblem.cost_eq`: What slacks add to the cost.
* `RefinementProblem.outside_le`, `RefinementProblem.slackSum_withSlacks`: The least
  sum of slacks.
* `RefinementProblem.isLeast_penalty`: The least that slacks add to the cost.
* `RefinementProblem.soft_penalised`: What the soft corridor does to a problem.
-/

namespace JerkPlan

open Finset

/-- What is asked at all positions of the first of two lists put one after another. -/
theorem forall_getElem?_left {α : Type} {asked : Nat → α → Prop} (xs ys : List α) :
    (∀ i a, xs[i]? = some a → asked i a) ↔
      ∀ i, i < xs.length → ∀ a, (xs ++ ys)[i]? = some a → asked i a := by
  constructor
  · intro h i hi a ha
    rw [List.getElem?_append_left hi] at ha
    exact h i a ha
  · intro h i a ha
    have hi := (List.getElem?_eq_some_iff.mp ha).1
    exact h i hi a (by rw [List.getElem?_append_left hi, ha])

/-- Two ways of going through a range agree if they begin alike and each step does. -/
theorem foldl_range_congr {α : Type} {f g : α → Nat → α} {n : Nat}
    (h : ∀ c i, i < n → f c i = g c i) {c d : α} (hcd : c = d) :
    (List.range n).foldl f c = (List.range n).foldl g d := by
  rw [hcd]
  exact List.foldl_ext _ _ _ fun c i hi => h c i (List.mem_range.mp hi)

namespace RefinementProblem

section Twins

variable {R : Type} {p : RefinementProblem R}

/-- The problem without its soft corridor. -/
def withoutSoft (p : RefinementProblem R) : RefinementProblem R := { p with soft := [] }

theorem not_soft_withoutSoft (i : Nat) (b : R × R) : ¬ p.withoutSoft.soft[i]? = some b :=
  (Option.some_ne_none b).symm

variable [Scalar R]

/-- The bounds of the states come first, then those of the slacks. -/
theorem variableBounds_withoutSoft : p.variableBounds = p.withoutSoft.variableBounds ++
    if p.usesSoft then List.replicate (2 * p.knots) (.finite 0, .plusInfinity) else [] := by
  have hnone : p.withoutSoft.usesSoft = false := rfl
  simp only [variableBounds, hnone, Bool.false_eq_true, if_false, List.append_nil]
  rfl

/-- The rows of the states come first, then those that slacks ease. -/
theorem rows_withoutSoft (limit : R → R) : p.rows limit = p.withoutSoft.rows limit ++
    p.soft.zipIdx.flatMap fun (ends, i) => p.softRows i ends := by
  have hnone : p.withoutSoft.soft.zipIdx = [] := rfl
  simp only [rows, hnone, List.flatMap_nil, List.append_nil]
  rfl

/-- A point keeps the lists without the soft corridor when it keeps those with it at the
    positions of the states and of the rows between them. -/
theorem kept_withoutSoft_iff (hknots : 0 < p.knots) (hhard : p.hard.length = p.knots)
    (kappa limit : R → R) (z : Nat → R) :
    (p.withoutSoft.lists kappa limit).Kept z ↔
      (∀ j, j < 3 * p.knots → (p.lists kappa limit).BoundedAt z j) ∧
        ∀ j, j < 4 * (p.knots - 1) + p.knots → (p.lists kappa limit).rows.KeptAt z j := by
  have hlength : p.withoutSoft.variableBounds.length = 3 * p.knots :=
    length_variableBounds (p := p.withoutSoft) hhard
  have hlength' : (p.withoutSoft.rows limit).length = 4 * (p.knots - 1) + p.knots :=
    length_rows (p := p.withoutSoft) (.inl rfl) limit
  have hbounds : (∀ j, (p.withoutSoft.lists kappa limit).BoundedAt z j) ↔
      ∀ j, j < 3 * p.knots → (p.lists kappa limit).BoundedAt z j := by
    simp only [boundedAt_lists (p := p.withoutSoft) hknots hhard, boundedAt_lists hknots hhard]
    rw [forall_getElem?_left _ _, ← variableBounds_withoutSoft, hlength]
  have hrows : (∀ j, (p.withoutSoft.lists kappa limit).rows.KeptAt z j) ↔
      ∀ j, j < 4 * (p.knots - 1) + p.knots → (p.lists kappa limit).rows.KeptAt z j := by
    change (∀ j, (RowLists.ofRows (p.withoutSoft.rows limit)).KeptAt z j) ↔
      ∀ j, _ → (RowLists.ofRows (p.rows limit)).KeptAt z j
    simp only [RowLists.keptAt_ofRows]
    rw [forall_getElem?_left _ _, ← rows_withoutSoft, hlength']
  rw [← hbounds, ← hrows]
  exact ⟨fun h => ⟨h.bounds, h.rows⟩, fun h => ⟨h.1, h.2⟩⟩

end Twins

variable {R : Type} [ExactScalar R] {p : RefinementProblem R} {x y z : Nat → R}

/-! Slacks that are large enough -/

/-- The slacks of a point are at least as large as its places are outside of their soft
    intervals, on either side. -/
def Eased (p : RefinementProblem R) (x : Nat → R) : Prop :=
  ∀ i b, p.soft[i]? = some b →
    max 0 (b.1 - x i) ≤ x (3 * p.knots + i) ∧ max 0 (x i - b.2) ≤ x (4 * p.knots + i)

/-- A problem asks for what it asks for without its soft corridor, and for slacks that are
    large enough. -/
theorem asks_iff {limit : R → R} :
    p.Asks limit x ↔ p.withoutSoft.Asks limit x ∧ p.Eased x := by
  constructor
  · intro h
    refine ⟨⟨⟨h.ranges.start, h.ranges.place, h.ranges.speed, h.ranges.acceleration, ?_⟩,
      ⟨h.moves.jerk, h.moves.linked, ?_⟩, h.advance, h.limited⟩, fun i b hb => ?_⟩
    · exact fun i b hb => absurd hb (not_soft_withoutSoft i b)
    · exact fun i b hb => absurd hb (not_soft_withoutSoft i b)
    · rcases h.ranges.slack i b hb with ⟨hlower, hupper⟩
      rcases h.moves.soft i b hb with ⟨hfloor, hceiling⟩
      exact ⟨max_le hlower (sub_le_comm.mp hfloor), max_le hupper (sub_le_iff_le_add'.mpr hceiling)⟩
  · intro ⟨h, heased⟩
    refine ⟨⟨h.ranges.start, h.ranges.place, h.ranges.speed, h.ranges.acceleration,
      fun i b hb => ?_⟩, ⟨h.moves.jerk, h.moves.linked, fun i b hb => ?_⟩, h.advance, h.limited⟩
    · rcases heased i b hb with ⟨hlower, hupper⟩
      exact ⟨(max_le_iff.mp hlower).1, (max_le_iff.mp hupper).1⟩
    · rcases heased i b hb with ⟨hlower, hupper⟩
      exact ⟨sub_le_comm.mp (max_le_iff.mp hlower).2,
        sub_le_iff_le_add'.mp (max_le_iff.mp hupper).2⟩

/-- Without a soft corridor only the states of a point matter. -/
theorem Asks.congr {limit : R → R} (hknots : 0 < p.knots) (hhard : p.hard.length = p.knots)
    (h : p.withoutSoft.Asks limit z) (hsame : ∀ j, j < 3 * p.knots → y j = z j) :
    p.withoutSoft.Asks limit y := by
  have hstate (i : Nat) (hi : i < p.withoutSoft.knots) :
      stateAt p.withoutSoft.knots y i = stateAt p.withoutSoft.knots z i := by
    change i < p.knots at hi
    change stateAt p.knots y i = stateAt p.knots z i
    rw [stateAt, stateAt, hsame _ (by omega), hsame _ (by omega), hsame _ (by omega)]
  refine ⟨⟨?_, ?_, ?_, ?_, ?_⟩, ⟨?_, ?_, ?_⟩, ?_, ?_⟩
  · rw [hstate 0 hknots]
    exact h.ranges.start
  · intro i b hi hb
    have hlt := (List.getElem?_eq_some_iff.mp hb).1
    rw [hstate i (hlt.trans_eq hhard)]
    exact h.ranges.place i b hi hb
  · intro i hi hlt
    rw [hstate i hlt]
    exact h.ranges.speed i hi hlt
  · intro i hi hlt
    rw [hstate i hlt]
    exact h.ranges.acceleration i hi hlt
  · exact fun i b hb => absurd hb (not_soft_withoutSoft i b)
  · intro i hi
    rw [hstate i (by omega), hstate (i + 1) hi]
    exact h.moves.jerk i hi
  · intro i hi
    rw [hstate i (by omega), hstate (i + 1) hi]
    exact h.moves.linked i hi
  · exact fun i b hb => absurd hb (not_soft_withoutSoft i b)
  · intro i hi
    rw [hstate i (by omega), hstate (i + 1) hi]
    exact h.advance i hi
  · intro i hi
    rw [hstate i hi]
    exact h.limited i hi

/-- A point with the slacks that it needs has slacks that are large enough. -/
theorem eased_withSlacks (hsoft : p.soft.length = p.knots) :
    p.Eased (withSlacks p.knots p.soft z) := by
  intro i b hb
  have hi : i < p.knots := (List.getElem?_eq_some_iff.mp hb).1.trans_eq hsoft
  have hplace : withSlacks p.knots p.soft z i = z i := if_pos (by omega)
  rw [hplace, withSlacks_lower hi hb, withSlacks_upper hb]
  exact ⟨le_rfl, le_rfl⟩

/-! What slacks cost -/

/-- How far the places of a point are outside of their soft intervals, all together. -/
def outside (p : RefinementProblem R) (x : Nat → R) : R :=
  ∑ i ∈ range p.knots, (p.soft[i]?).elim 0 fun b => max 0 (b.1 - x i) + max 0 (x i - b.2)

/-- All slacks of a point together. -/
def slackSum (p : RefinementProblem R) (x : Nat → R) : R :=
  ∑ i ∈ range p.knots, (x (3 * p.knots + i) + x (4 * p.knots + i))

/-- Adding up values one after the other is their sum. -/
theorem foldl_add_range (f : Nat → R) (c : R) (n : Nat) :
    (List.range n).foldl (fun sum i => sum + f i) c = c + ∑ i ∈ range n, f i := by
  induction n with
  | zero => rw [List.range_zero, List.foldl_nil, sum_range_zero, add_zero]
  | succ n ih =>
      rw [List.range_succ, List.foldl_append, ih, List.foldl_cons, List.foldl_nil, sum_range_succ,
        add_assoc]

/-- Slacks add their sum to the cost, times the weight of the soft corridor. -/
theorem cost_eq (huse : p.usesSoft = true) (kappa : R → R) :
    p.cost kappa x = p.withoutSoft.cost kappa x + p.softWeight * p.slackSum x := by
  have hnone : p.withoutSoft.usesSoft = false := rfl
  simp only [cost, huse, hnone, Bool.false_eq_true, if_true, if_false]
  rw [foldl_add_range, slackSum, mul_sum]
  rfl

/-- Without a soft corridor, the cost is one of the states only. -/
theorem cost_congr (kappa : R → R) (hsame : ∀ j, j < 3 * p.knots → y j = z j) :
    p.withoutSoft.cost kappa y = p.withoutSoft.cost kappa z := by
  have hnone : p.withoutSoft.usesSoft = false := rfl
  have hcount : p.withoutSoft.knots = p.knots := rfl
  simp only [cost, hnone, hcount, Bool.false_eq_true, if_false]
  refine foldl_range_congr (fun c i hi => ?_) (foldl_range_congr (fun c i hi => ?_) rfl)
  · rw [hsame (2 * p.knots + i) (by omega), hsame (2 * p.knots + i + 1) (by omega)]
  · rw [hsame i (by omega), hsame (p.knots + i) (by omega), hsame (2 * p.knots + i) (by omega)]

/-- Slacks that are large enough are together not smaller than what places are outside. -/
theorem outside_le (hsoft : p.soft.length = p.knots) (heased : p.Eased x) :
    p.outside x ≤ p.slackSum x := by
  refine sum_le_sum fun i hi => ?_
  have hb : p.soft[i]? = some _ :=
    List.getElem?_eq_getElem (by rw [hsoft]; exact mem_range.mp hi)
  rw [hb, Option.elim_some]
  exact add_le_add (heased i _ hb).1 (heased i _ hb).2

/-- The slacks that a point needs are together what its places are outside. -/
theorem slackSum_withSlacks (hsoft : p.soft.length = p.knots) :
    p.slackSum (withSlacks p.knots p.soft z) = p.outside z := by
  refine sum_congr rfl fun i hi => ?_
  have hlt := mem_range.mp hi
  have hb : p.soft[i]? = some _ := List.getElem?_eq_getElem (hlt.trans_eq hsoft.symm)
  rw [withSlacks_lower hlt hb, withSlacks_upper hb, hb, Option.elim_some]

/-- Only places count for how far one is outside. -/
theorem outside_congr (hsame : ∀ j, j < 3 * p.knots → y j = z j) : p.outside y = p.outside z := by
  refine sum_congr rfl fun i hi => ?_
  have hlt := mem_range.mp hi
  rw [hsame i (by omega)]

/-! With the soft corridor and without it -/

/-- What keeping the lists comes to, with a soft corridor or without one. -/
theorem kept_iff_asks (hknots : 0 < p.knots) (hhard : p.hard.length = p.knots)
    (hsoft : p.soft = [] ∨ p.soft.length = p.knots) (kappa limit : R → R) (x : Nat → R) :
    (p.lists kappa limit).Kept x ↔ p.Asks limit x := by
  have hranges := boundedAt_lists_iff (x := x) hknots hhard hsoft kappa limit
  have hmoves := keptAt_lists_iff (p := p) (x := x) kappa limit
  constructor
  · intro h
    rcases hmoves.mp h.rows with ⟨hmotion, hadvance, hlimited⟩
    exact ⟨hranges.mp h.bounds, hmotion, hadvance, hlimited⟩
  · intro h
    exact ⟨hranges.mpr h.ranges, hmoves.mpr ⟨h.moves, h.advance, h.limited⟩⟩

section Kept

variable (hknots : 0 < p.knots) (hhard : p.hard.length = p.knots)
  (hsoft : p.soft.length = p.knots) (kappa limit : R → R)

include hknots hhard hsoft in
/-- A point keeps the lists with the soft corridor when it keeps those without it and has
    slacks that are large enough. -/
theorem kept_iff_eased (y : Nat → R) : (p.lists kappa limit).Kept y ↔
    (p.withoutSoft.lists kappa limit).Kept y ∧ p.Eased y := by
  rw [kept_iff_asks hknots hhard (.inr hsoft),
    kept_iff_asks (p := p.withoutSoft) hknots hhard (.inl rfl), asks_iff]

include hknots hhard in
/-- Without the soft corridor only the states of a point matter. -/
theorem kept_withoutSoft_congr (hz : (p.withoutSoft.lists kappa limit).Kept z)
    (hsame : ∀ j, j < 3 * p.knots → y j = z j) : (p.withoutSoft.lists kappa limit).Kept y := by
  rw [kept_iff_asks (p := p.withoutSoft) hknots hhard (.inl rfl)] at hz ⊢
  exact hz.congr hknots hhard hsame

include hknots hhard hsoft in
/-- The least that slacks add to the cost of states that are allowed without the soft
    corridor. -/
theorem isLeast_penalty (hweight : 0 ≤ p.softWeight)
    (hz : (p.withoutSoft.lists kappa limit).Kept z) :
    IsLeast {c | ∃ y, (∀ j, j < 3 * p.knots → y j = z j) ∧ (p.lists kappa limit).Kept y ∧
      p.cost kappa y = p.withoutSoft.cost kappa z + c} (p.softWeight * p.outside z) := by
  have huse : p.usesSoft = true := by
    rw [usesSoft, List.isEmpty_eq_false_iff.mpr (List.ne_nil_of_length_pos (by omega)),
      Bool.not_false]
  have hcost (y : Nat → R) (hyz : ∀ j, j < 3 * p.knots → y j = z j) :
      p.cost kappa y = p.withoutSoft.cost kappa z + p.softWeight * p.slackSum y := by
    rw [cost_eq huse, cost_congr kappa hyz]
  constructor
  · have hstates (j : Nat) (hj : j < 3 * p.knots) : withSlacks p.knots p.soft z j = z j :=
      if_pos hj
    have hkept := kept_withoutSoft_congr hknots hhard kappa limit hz hstates
    refine ⟨_, hstates, (kept_iff_eased hknots hhard hsoft kappa limit _).mpr
      ⟨hkept, eased_withSlacks hsoft⟩, ?_⟩
    rw [hcost _ hstates, slackSum_withSlacks hsoft]
  · -- Whatever the slacks are, their sum is all that they add.
    rintro c ⟨y, hyz, hy, hc⟩
    have heased := ((kept_iff_eased hknots hhard hsoft kappa limit y).mp hy).2
    have hadded : p.softWeight * p.slackSum y = c := add_left_cancel ((hcost y hyz).symm.trans hc)
    rw [← hadded, ← outside_congr hyz]
    exact mul_le_mul_of_nonneg_left (outside_le hsoft heased) hweight

end Kept

/-- A problem with a soft corridor can be built with it and without it. Without it, a point
    is asked to keep just those bounds and rows that are not about slacks. A point that
    does so has slacks with which it keeps all of them, and the least that such slacks
    can add to its cost is the weight times what its places are outside of their soft
    intervals. So there is a point with the soft corridor if there is one without it, and
    only then. -/
theorem soft_penalised {curvature limit : JerkCurve R} (hknots : 0 < p.knots)
    (hhard : p.hard.length = p.knots) (hsoft : p.soft.length = p.knots)
    (hcurvature : p.curvature = some curvature) (hlimit : p.limit = some limit)
    (hweight : 0 ≤ p.softWeight) :
    ∃ b b', p.build = .ok b ∧ p.withoutSoft.build = .ok b' ∧
      (∀ z, b'.Kept z ↔ (∀ j, j < 3 * p.knots → b.BoundedAt z j) ∧
        ∀ j, j < 4 * (p.knots - 1) + p.knots → b.rows.KeptAt z j) ∧
      (∀ z, b'.Kept z → IsLeast {c | ∃ y, (∀ j, j < 3 * p.knots → y j = z j) ∧ b.Kept y ∧
        b.cost y = b'.cost z + c} (p.softWeight * p.outside z)) ∧
      ((∃ y, b.Kept y) ↔ ∃ z, b'.Kept z) := by
  rcases splines_total hcurvature hlimit (List.ne_nil_of_length_pos (by omega)) with
    ⟨kappa, bound, hsplines⟩
  -- The same curves do for both, since they are looked up along the hard corridor.
  have hsplines' : p.withoutSoft.splines = .ok (kappa, bound) := hsplines
  have hleast (z : Nat → R) (hz : (p.withoutSoft.lists kappa.eval bound.eval).Kept z) :=
    isLeast_penalty hknots hhard hsoft kappa.eval bound.eval hweight hz
  refine ⟨_, _, bind_eq_ok_iff.mpr ⟨_, hsplines, rfl⟩, bind_eq_ok_iff.mpr ⟨_, hsplines', rfl⟩,
    kept_withoutSoft_iff hknots hhard _ _, hleast, ?_⟩
  constructor
  · rintro ⟨y, hy⟩
    exact ⟨y, ((kept_iff_eased hknots hhard hsoft _ _ y).mp hy).1⟩
  · rintro ⟨z, hz⟩
    rcases (hleast z hz).1 with ⟨y, _, hy, _⟩
    exact ⟨y, hy⟩

/-! Coming too near, at a price -/

/-- Somebody ahead to whom one would like to keep more distance, with a price for each
    metre that is missing. -/
def priced : RefinementProblem Rat := { tooNear with softWeight := 300 }

/-- Speeding up is allowed, and leaves the soft corridor by a sixth at the second knot. So
    it costs fifty more than without. -/
theorem soft_penalised_priced : 0 < priced.knots ∧ priced.hard.length = priced.knots ∧
    priced.soft.length = priced.knots ∧ 0 ≤ priced.softWeight ∧
    ∃ b b', priced.build = .ok b ∧ priced.withoutSoft.build = .ok b' ∧ b'.Kept speedingUp ∧
      IsLeast {c | ∃ y, (∀ j, j < 6 → y j = speedingUp j) ∧ b.Kept y ∧
        b.cost y = b'.cost speedingUp + c} 50 := by
  have hknots : 0 < priced.knots := by decide
  have hweight : 0 ≤ priced.softWeight := by decide +kernel
  have hcharge : priced.softWeight * priced.outside speedingUp = 50 := by decide +kernel
  have hparts : (priced.withoutSoft.splines.toOption.map fun curves => decide
      ((priced.withoutSoft.programWith curves.1.eval curves.2.eval).Feasible speedingUp)) =
        some true := by decide +kernel
  rcases exists_of_toOption_map hparts with ⟨⟨kappa, bound⟩, hsplines, hfeasible⟩
  have hlists : priced.withoutSoft.build =
      .ok (priced.withoutSoft.lists kappa.eval bound.eval) := bind_eq_ok_iff.mpr ⟨_, hsplines, rfl⟩
  have hkept : (priced.withoutSoft.lists kappa.eval bound.eval).Kept speedingUp :=
    (kept_lists_iff (p := priced.withoutSoft) hknots rfl _ _ _).mpr (of_decide_eq_true hfeasible)
  rcases soft_penalised hknots rfl rfl rfl rfl hweight with ⟨b, b', hb, hb', _, hleast, _⟩
  have hsame : b' = priced.withoutSoft.lists kappa.eval bound.eval :=
    Except.ok.inj (hb'.symm.trans hlists)
  rw [← hsame] at hkept
  have hcost := hleast speedingUp hkept
  rw [hcharge] at hcost
  exact ⟨hknots, rfl, rfl, hweight, b, b', hb, hb', hkept, hcost⟩

end RefinementProblem

end JerkPlan
