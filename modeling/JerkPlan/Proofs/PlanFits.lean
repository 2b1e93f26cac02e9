import JerkPlan.Proofs.ConvexProblems
import JerkPlan.Proofs.CycleCompletes
import JerkPlan.Proofs.RefinementRows

/-!
# The convex plan fits its refinement

A plan that the convex problem allows is not far from what the refinement asks
for.

The two problems are written apart, but for the same horizon. What the convex
plan may do is within the limits of the refinement at every knot: the same
corridor and accelerations, a lower top speed, the same jerk, and the same start
at the first knot, where the refinement asks for nothing else. The soft corridor
is new to a convex plan. But it is eased by slacks, and the refinement sets them
no limit, so `withSlacks` makes them as large as the plan needs.

Two blocks of rows are left out. A convex plan has never heard of the speed limit
at the place where it is. And though its speeds at the knots are not negative, it
may go backwards between two of them, and end a step behind where it began.

## Main definitions

* `withSlacks`: A point with the slacks that it needs.

## Theorems

* `stateAt_withSlacks`: Slacks change no state.
* `RefinedFor.ranges_withSlacks`, `RefinedFor.moves_withSlacks`: What is left of
  the refinement's limits and motion.
* `Planner.plan_fits`: The convex plan fits its refinement.
-/

namespace JerkPlan

/-- A soft interval belongs to one of the knots. -/
theorem Horizon.Fits.lt_knots {R : Type} {h : Horizon R} (hh : h.Fits) {i : Nat} {b : R × R}
    (hb : h.corridor.soft[i]? = some b) : i < h.knots.toNat := by
  have hi := (List.getElem?_eq_some_iff.mp hb).1
  rcases hh.soft with hnone | hlength
  · rw [hnone] at hi
    exact absurd hi (Nat.not_lt_zero i)
  · rw [← hlength]
    exact hi

variable {R : Type} [ExactScalar R]

/-- A point of `n` knots with slacks, each as large as its place is outside the
    soft interval on that side. -/
def withSlacks (n : Nat) (soft : List (R × R)) (z : Nat → R) (j : Nat) : R :=
  if j < 3 * n then z j
  else if j < 4 * n then (soft[j - 3 * n]?).elim 0 fun b => max 0 (b.1 - z (j - 3 * n))
  else (soft[j - 4 * n]?).elim 0 fun b => max 0 (z (j - 4 * n) - b.2)

section Slacks

variable {n i : Nat} {soft : List (R × R)} {z : Nat → R}

/-- Slacks come after the states of all knots and change none of them. -/
theorem stateAt_withSlacks (hi : i < n) :
    stateAt n (withSlacks n soft z) i = stateAt n z i := by
  rw [stateAt, stateAt, withSlacks, withSlacks, withSlacks, if_pos (by omega), if_pos (by omega),
    if_pos (by omega)]

theorem withSlacks_lower (hi : i < n) {b : R × R} (hb : soft[i]? = some b) :
    withSlacks n soft z (3 * n + i) = max 0 (b.1 - z i) := by
  rw [withSlacks, if_neg (by omega), if_pos (by omega), Nat.add_sub_cancel_left, hb,
    Option.elim_some]

theorem withSlacks_upper {b : R × R} (hb : soft[i]? = some b) :
    withSlacks n soft z (4 * n + i) = max 0 (z i - b.2) := by
  rw [withSlacks, if_neg (by omega), if_neg (by omega), Nat.add_sub_cancel_left, hb,
    Option.elim_some]

end Slacks

section Refined

variable {h : Horizon R} {r : RefinementProblem R} {z : Nat → R}

/-- States within the limits of a horizon, with their slacks, are within those
    of its refinement. -/
theorem RefinedFor.ranges_withSlacks (hr : RefinedFor h r) (hh : h.Fits)
    (hstart : stateAt h.knots.toNat z 0 = ⟨h.place, h.speed, h.acceleration⟩)
    (hz : h.Allows (stateAt h.knots.toNat z)) :
    r.Ranges (withSlacks h.knots.toNat h.corridor.soft z) := by
  have htwo := hh.two_le_knots
  have hknots : r.knots = h.knots.toNat := by rw [RefinementProblem.knots, hr.horizon]
  constructor
  · -- A convex plan has its start as rows, a refinement as bounds.
    rw [hknots, hr.horizon, stateAt_withSlacks (by omega)]
    exact hstart
  · intro i b _ hb
    have hi : i < h.knots.toNat := by
      rw [← hknots, ← hr.length_hard]
      exact (List.getElem?_eq_some_iff.mp hb).1
    rcases (hz.knots i hi).place with ⟨b', hb', hplace⟩
    rw [hr.hard, hb', Option.some.injEq] at hb
    rw [hknots, stateAt_withSlacks hi, ← hb]
    exact hplace
  · intro i _ hi
    rw [hknots] at hi ⊢
    rw [hr.horizon, stateAt_withSlacks hi]
    exact (hz.knots i hi).speed
  · intro i _ hi
    rw [hknots] at hi ⊢
    rw [hr.horizon, stateAt_withSlacks hi]
    exact (hz.knots i hi).acceleration
  · intro i b hb
    rw [hr.soft] at hb
    have hi := hh.lt_knots hb
    rw [hknots, withSlacks_lower hi hb, withSlacks_upper hb]
    exact ⟨le_max_left _ _, le_max_left _ _⟩

/-- States that move by constant jerk, with their slacks, move as a refinement
    asks. -/
theorem RefinedFor.moves_withSlacks (hr : RefinedFor h r) (hh : h.Fits)
    (hz : h.Allows (stateAt h.knots.toNat z)) :
    r.Moves (withSlacks h.knots.toNat h.corridor.soft z) := by
  have hknots : r.knots = h.knots.toNat := by rw [RefinementProblem.knots, hr.horizon]
  constructor
  · intro i hi
    rw [hknots] at hi ⊢
    rw [hr.horizon, stateAt_withSlacks hi, stateAt_withSlacks (by omega)]
    exact hz.jerk i hi
  · intro i hi
    rw [hknots] at hi ⊢
    rw [hr.horizon, stateAt_withSlacks hi, stateAt_withSlacks (by omega)]
    exact hz.linked i hi
  · intro i b hb
    rw [hr.soft] at hb
    have hi := hh.lt_knots hb
    rw [hknots, stateAt_withSlacks hi, withSlacks_lower hi hb, withSlacks_upper hb]
    -- A slack is not less than what the place is short of its end.
    have hlower := le_max_right 0 (b.1 - z i)
    have hupper := le_max_right 0 (z i - b.2)
    change b.1 - max 0 (b.1 - z i) ≤ z i ∧ z i ≤ b.2 + max 0 (z i - b.2)
    exact ⟨by linarith, by linarith⟩

end Refined

namespace Planner

variable {p : Planner R} {rough : SpeedSeries R} {x : Surroundings R} {h : Horizon R}

/-- A horizon of two knots has a convex problem, and for any plan of its size and
    any curves a refinement that is handed to a solver as lists of fitting sizes.
    Whatever keeps the rows of the convex problem has slacks with which it keeps
    all ends of the variables, and all rows but those for advancing and for the
    speed limit. -/
theorem plan_fits (hp : p.settings.checked = .ok p.settings)
    (hh : (p.horizon rough x).result = .ok h) (hknots : 2 ≤ h.knots) (hm : h.Moderate)
    (prior : SpeedSeries R) {plan : KnotProfile R} (hplan : plan.Shaped h.knots.toNat)
    (curvature limit : JerkCurve R) :
    ∃ q r b, (convexProblem h prior p.settings).result = .ok q ∧
      (p.refinement h plan curvature limit).result = .ok r ∧ r.build = .ok b ∧
      b.Sized ((if r.usesSoft then 5 else 3) * h.knots.toNat) (4 * (h.knots.toNat - 1) +
        h.knots.toNat + if r.usesSoft then 2 * h.knots.toNat else 0) ∧
      ∀ z, q.constraints.Hold z → ∃ y, (∀ j, j < 3 * h.knots.toNat → y j = z j) ∧
        (∀ j, b.BoundedAt y j) ∧
        ∀ j, h.knots.toNat - 1 ≤ j → (j < 4 * (h.knots.toNat - 1) ∨
          4 * (h.knots.toNat - 1) + h.knots.toNat ≤ j) → b.rows.KeptAt y j := by
  have hfits := horizon_fits hh hknots
  have hstep : 0 < h.step := by
    rw [(horizon_parts hh).1]
    exact ((PlanSettings.checked_iff _).mp hp).step_pos
  rcases convexProblem_total hknots hstep hfits.hard prior p.settings with ⟨q, hq⟩
  rcases p.refinement_total hfits hplan curvature limit with ⟨r, hr, hcurvature, hlimit⟩
  have hconvex := convexProblem_for hq
  have hrefined := refinement_for hr
  have hcount : r.knots = h.knots.toNat := by rw [RefinementProblem.knots, hrefined.horizon]
  have hsome : 0 < r.knots := by omega
  have hsoft : r.soft = [] ∨ r.soft.length = r.knots := by
    rw [hrefined.soft, hcount]
    exact hfits.soft
  rcases RefinementProblem.build_total hcurvature hlimit (List.ne_nil_of_length_pos
    (by rw [hrefined.length_hard]; exact hsome)) with ⟨kappa, bound, hb⟩
  have hsized := RefinementProblem.lists_sized hsome hrefined.length_hard hsoft kappa.eval
    bound.eval
  rw [hcount] at hsized
  refine ⟨q, r, _, hq, hr, hb, hsized, fun z hz => ?_⟩
  -- The convex plan is within the limits of the horizon, from which both problems are made.
  have hallows := hconvex.allows hm (horizon_ok hh).1 hz
  refine ⟨withSlacks h.knots.toNat h.corridor.soft z, fun j hj => if_pos hj, ?_, ?_⟩
  · exact (RefinementProblem.boundedAt_lists_iff hsome hrefined.length_hard hsoft _ _).mpr
      (hrefined.ranges_withSlacks hfits (hconvex.start_eq hm hz) hallows)
  · intro j hfirst hlimited
    rw [← hcount] at hfirst hlimited
    exact RefinementProblem.keptAt_lists_of_moves _ _
      (hrefined.moves_withSlacks hfits hallows) hfirst hlimited

end Planner

/-! Tailgating -/

/-- Somebody right ahead who goes at one's own speed. -/
def tailgating : Surroundings Rat where
  regions := [⟨.follow, [(0, 21 / 4), (9, 57 / 4)], [(0, 9), (9, 18)], 5, none⟩]
  length := 30
  time := 1
  speed := 1
  acceleration := 0
  limit := ⟨[(0, 5), (30, 5)]⟩
  cruiseSpeed := 5
  legalSpeed := 5
  brake := none
  arrived := false

/-- Staying behind at that speed for a second. -/
def stayingBehind : Nat → Rat := fun j => ([0, 1, 1, 1, 0, 0][j]?).getD 0

/-- Staying behind is a plan, though the second knot is beyond its soft interval,
    and slacks make it fit the refinement. -/
theorem Planner.plan_fits_tailgating : rider.settings.checked = .ok rider.settings ∧
    ∃ h q r b, (rider.horizon ⟨[⟨0, 0, 1, 0, 0⟩, ⟨10, 10, 1, 0, 0⟩]⟩ tailgating).result = .ok h ∧
      h.knots = 2 ∧ h.corridor.soft = [(0, 1 / 10), (0, 3 / 4)] ∧ h.Moderate ∧
      (convexProblem h ⟨[]⟩ rider.settings).result = .ok q ∧ q.constraints.Hold stayingBehind ∧
      (rider.refinement h ⟨[0, 1], [1, 1], [0, 0]⟩ (.ofStart ⟨0, 0, 0⟩)
        (.ofStart ⟨5, 0, 0⟩)).result = .ok r ∧ r.build = .ok b ∧ b.Sized 10 10 ∧
      ∃ y, (∀ j, j < 6 → y j = stayingBehind j) ∧ (∀ j, b.BoundedAt y j) ∧
        ∀ j, 1 ≤ j → (j < 4 ∨ 6 ≤ j) → b.rows.KeptAt y j := by
  have hchecked := rider_checked.settings
  have hparts : ((rider.horizon ⟨[⟨0, 0, 1, 0, 0⟩, ⟨10, 10, 1, 0, 0⟩]⟩
      tailgating).result.toOption.map fun h => decide (h.knots = 2 ∧
        h.corridor.soft = [(0, 1 / 10), (0, 3 / 4)] ∧ h.Moderate) &&
          (convexProblem h ⟨[]⟩ rider.settings).result.toOption.any fun q =>
            decide (q.constraints.Hold stayingBehind)) = some true := by decide +kernel
  rcases exists_of_toOption_map hparts with ⟨h, hh, hheld⟩
  simp only [Bool.and_eq_true, decide_eq_true_eq] at hheld
  rcases hheld with ⟨⟨hknots, hsoft, hm⟩, hheld⟩
  have hcount : h.knots.toNat = 2 := by omega
  have hplan : KnotProfile.Shaped h.knots.toNat ⟨[(0 : Rat), 1], [1, 1], [0, 0]⟩ := by
    rw [hcount]
    exact ⟨rfl, rfl, rfl⟩
  rcases plan_fits hchecked hh (by omega) hm ⟨[]⟩ hplan (.ofStart ⟨0, 0, 0⟩)
    (.ofStart ⟨5, 0, 0⟩) with ⟨q, r, b, hq, hr, hb, hsized, hfits⟩
  have huse : r.usesSoft = true := by
    rw [RefinementProblem.usesSoft, (refinement_for hr).soft, hsoft]
    rfl
  rw [hcount, huse] at hsized
  simp only [hq, Except.toOption, Option.any_some, decide_eq_true_eq] at hheld
  rw [hcount] at hfits
  exact ⟨hchecked, h, q, r, b, hh, hknots, hsoft, hm, hq, hheld, hr, hb, hsized, hfits _ hheld⟩

end JerkPlan
