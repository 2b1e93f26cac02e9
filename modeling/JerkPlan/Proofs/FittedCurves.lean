import JerkPlan.Proofs.CheckedSettings
import JerkPlan.Proofs.ConstantFits
import JerkPlan.Proofs.CycleLimits

/-!
# Fitted curves

A fitted curve stays in the ranges of its fit, and not only at its knots.

The rows of a fit bound values and derivatives at the knots, and the change of
the second derivative over each step. What they say of the curve in between is
decided by the search for the segment that a parameter falls on.
`JerkCurve.Even.eval_segment` is all that has to be known of it: inside the
curve there is a segment that holds the parameter, local parameter included,
and every derivative is that segment's.

On a segment the second derivative goes along a line from knot to knot, so it
stays between what it is at both. The third one is the change over the step
divided by the step, and bounds of the change times the step are those of the
jerk. Value and slope are bounded at the knots only: a curve that turns in
between may leave their ranges there.

Solvers read no bound beyond `Endpoint.huge`, so the ends of the ranges must not
be larger than that. Nothing is asked of the start. Whatever an answer begins
with has to lie in the ranges like the rest of it.

## Main definitions

* `FitSettings.Moderate`: Ranges that solvers read as they are.
* `FitSettings.Contains`: A state in the ranges of a fit.
* `ConvexSolver.Fits`: What a solver answers a fit with.

## Theorems

* `JerkCurve.Even.length_eq`: The length of an even curve.
* `JerkCurve.Even.eval_segment`: The segment that a parameter falls on.
* `JerkCurve.Even.bend_between`, `JerkCurve.Even.jerk_between`: The second and
  the third derivative between the knots, from what is known at them.
* `rebuild_feasible`: The knots of a curve rebuilt from a point that keeps the
  rows.
* `FitFor.contains`, `FitFor.change_between`: What the rows of a fit ask.
* `fit_within`: A fitted curve stays in its ranges.
-/

namespace JerkPlan

variable {R : Type} [ExactScalar R]

/-! Even curves -/

namespace JerkCurve

/-- An even curve is as long as its segments together. -/
theorem Even.length_eq {step : R} {c : JerkCurve R} (h : c.Even step) :
    c.length = (c.segments.length : R) * step := by
  rw [length, List.getLast?_eq_getElem?, h.length_breaks]
  rcases hlength : c.segments.length with _ | n
  · rw [List.getElem?_eq_none (by rw [h.length_breaks]; omega), Option.getD_none, Nat.cast_zero,
      zero_mul]
  · rw [Nat.add_sub_cancel, h.break_eq (by omega), Option.getD_some]

/-- Inside an even curve every derivative is that of a segment on which the
    parameter falls. -/
theorem Even.eval_segment {step : R} {c : JerkCurve R} (h : c.Even step) (hstep : 0 < step)
    (hsome : 0 < c.segments.length) {s : R} (hlow : 0 ≤ s) (hhigh : s ≤ c.length) :
    ∃ (i : Nat) (g : JerkSegment R), c.segments[i]? = some g ∧ 0 ≤ s - (i : R) * step ∧
      s - (i : R) * step ≤ step ∧ ∀ order, c.eval order s = g.eval order (s - (i : R) * step) := by
  have hjoined := h.joined hstep
  rcases hjoined.exists_serves hsome s with ⟨i, hi⟩
  have hlt := hi.lt_length
  have hreach := reach_eq_mul h.lengths hlt.le
  have hnext : c.reach (i + 1) = (i : R) * step + step := by
    rw [reach_eq_mul h.lengths hlt]
    push_cast
    ring
  obtain ⟨g, hget⟩ : ∃ g, c.segments[i]? = some g := ⟨_, List.getElem?_eq_getElem hlt⟩
  refine ⟨i, g, hget, ?_, ?_, fun order => ?_⟩
  · rcases hi.after with rfl | hafter
    · rw [Nat.cast_zero, zero_mul, sub_zero]
      exact hlow
    · rw [hreach] at hafter
      exact sub_nonneg.mpr hafter.le
  · -- The last segment goes on beyond the curve, but the parameter does not.
    have hbefore : s ≤ c.reach (i + 1) := by
      rcases hi.before with hlast | hbefore
      · rw [hlast, ← hjoined.length_eq]
        exact hhigh
      · exact hbefore
    rw [hnext] at hbefore
    linarith
  · rw [hjoined.eval_of_serves hi hget, hreach]

/-- The second derivative at both ends of a segment is that of the knots there. -/
theorem Even.bend_ends {step : R} {c : JerkCurve R} (h : c.Even step) {i : Nat}
    {g : JerkSegment R} (hg : c.segments[i]? = some g) :
    g.a = (c.knot i).a ∧ g.a + g.jerk * step = (c.knot (i + 1)).a := by
  constructor
  · rw [← h.joins i g hg]
  · rw [knot, hg, Option.elim_some, JerkSegment.finish, h.lengths i g hg]
    rfl

end JerkCurve

/-- On a line the values between two places lie between those there. -/
theorem line_between {l u a slope length x : R} (hbegin : l ≤ a ∧ a ≤ u)
    (hend : l ≤ a + slope * length ∧ a + slope * length ≤ u) (hlow : 0 ≤ x) (hhigh : x ≤ length) :
    l ≤ a + slope * x ∧ a + slope * x ≤ u := by
  rcases le_total 0 slope with hrising | hfalling
  · have hrise := mul_nonneg hrising hlow
    have hrest := mul_le_mul_of_nonneg_left hhigh hrising
    exact ⟨by linarith [hbegin.1], by linarith [hend.2]⟩
  · have hfall := mul_nonpos_of_nonpos_of_nonneg hfalling hlow
    have hrest := mul_le_mul_of_nonpos_left hhigh hfalling
    exact ⟨by linarith [hend.1], by linarith [hbegin.2]⟩

/-- When the second derivative lies in a range at all knots of an even curve,
    it does so everywhere on the curve. -/
theorem JerkCurve.Even.bend_between {step : R} {c : JerkCurve R} (h : c.Even step)
    (hstep : 0 < step) (hsome : 0 < c.segments.length) {b : R × R}
    (hknots : ∀ i ≤ c.segments.length, b.1 ≤ (c.knot i).a ∧ (c.knot i).a ≤ b.2) {s : R}
    (hlow : 0 ≤ s) (hhigh : s ≤ c.length) : b.1 ≤ c.eval 2 s ∧ c.eval 2 s ≤ b.2 := by
  rcases h.eval_segment hstep hsome hlow hhigh with ⟨i, g, hg, hafter, hbefore, heval⟩
  have hi := (List.getElem?_eq_some_iff.mp hg).1
  rcases h.bend_ends hg with ⟨hbegin, hend⟩
  rw [heval 2]
  exact line_between (hbegin ▸ hknots i hi.le) (hend ▸ hknots (i + 1) hi) hafter hbefore

/-- When the second derivative of an even curve changes by no more over any
    step than jerk of a range does, the third one lies in that range everywhere
    on the curve. -/
theorem JerkCurve.Even.jerk_between {step : R} {c : JerkCurve R} (h : c.Even step)
    (hstep : 0 < step) (hsome : 0 < c.segments.length) {b : R × R}
    (hchanges : ∀ i < c.segments.length, b.1 * step ≤ (c.knot (i + 1)).a - (c.knot i).a ∧
      (c.knot (i + 1)).a - (c.knot i).a ≤ b.2 * step) {s : R}
    (hlow : 0 ≤ s) (hhigh : s ≤ c.length) : b.1 ≤ c.eval 3 s ∧ c.eval 3 s ≤ b.2 := by
  rcases h.eval_segment hstep hsome hlow hhigh with ⟨i, g, hg, _, _, heval⟩
  have hchange := hchanges i (List.getElem?_eq_some_iff.mp hg).1
  rcases h.bend_ends hg with ⟨hbegin, hend⟩
  rw [← hbegin, ← hend, add_sub_cancel_left, mul_le_mul_iff_left₀ hstep,
    mul_le_mul_iff_left₀ hstep] at hchange
  rw [heval 3]
  exact hchange

/-! Rebuilt curves -/

/-- The knots of a curve rebuilt from a profile that keeps the rows of a problem
    are the states of the profile. -/
theorem rebuild_feasible {q : KnotProblem R} (hq : q.WellFormed) {k : KnotProfile R}
    (hk : k.Shaped q.knots) (hkept : q.Feasible k) :
    ∃ c, rebuild q.step k = .ok c ∧ c.Even q.step ∧ c.segments.length + 1 = q.knots ∧
      ∀ i < q.knots, c.knot i = stateAt q.knots k.point i := by
  have hknots := hq.two_le_knots
  rcases rebuild_even hq.step_pos (by omega : 0 < q.knots) hk with
    ⟨c, hc, heven, hlength, hfirst, hnext⟩
  refine ⟨c, hc, heven, hlength, fun i => ?_⟩
  -- Each knot follows from the one before it, in the curve as in the profile.
  induction i with
  | zero => exact fun _ => hfirst
  | succ i ih =>
      intro hi
      rw [hnext i hi, ih (by omega)]
      exact (Motion.advance_eq_iff hq.step_pos _ _).mpr (KnotProblem.linked_of_hold hq hkept hi)

/-! Fits -/

/-- The problem of a fit has bounds for each knot and a whole start. -/
theorem fitProblem_wellFormed {samples : List R} {start : Motion R} {f : FitSettings R}
    {q : KnotProblem R} (hq : fitProblem samples start f = .ok q) : q.WellFormed :=
  (fitProblem_for hq).wellFormed (by rw [fitProblem_start hq]; rfl)

/-- Neither the ranges of a fit nor the changes that its range of jerk allows
    over a step are larger than what solvers read as no bound. -/
structure FitSettings.Moderate (f : FitSettings R) : Prop where
  values : |f.xRange.1| ≤ Endpoint.huge ∧ |f.xRange.2| ≤ Endpoint.huge
  slopes : |f.dxRange.1| ≤ Endpoint.huge ∧ |f.dxRange.2| ≤ Endpoint.huge
  bends : |f.ddxRange.1| ≤ Endpoint.huge ∧ |f.ddxRange.2| ≤ Endpoint.huge
  changes : |f.dddxRange.1 * f.spacing| ≤ Endpoint.huge ∧
    |f.dddxRange.2 * f.spacing| ≤ Endpoint.huge

/-- A state lies in the ranges of a fit. -/
structure FitSettings.Contains (f : FitSettings R) (m : Motion R) : Prop where
  value : f.xRange.1 ≤ m.p ∧ m.p ≤ f.xRange.2
  slope : f.dxRange.1 ≤ m.v ∧ m.v ≤ f.dxRange.2
  bend : f.ddxRange.1 ≤ m.a ∧ m.a ≤ f.ddxRange.2

section Rows

variable {samples : List R} {f : FitSettings R} {q : KnotProblem R} {z : Nat → R}

/-- The rows of a fit keep the state at every knot in the ranges. -/
theorem FitFor.contains (hq : FitFor samples f q) (hf : f.Moderate)
    (hrows : q.EachRow (fun l u x => l ≤ x ∧ x ≤ u) z) {i : Nat} (hi : i < q.knots) :
    f.Contains (stateAt q.knots z i) := by
  have hentry (b : Endpoint R × Endpoint R) : (List.replicate q.knots b)[i]? = some b := by
    rw [List.getElem?_replicate, if_pos hi]
  constructor
  · exact between_of_clip hf.values.1 hf.values.2 (hrows.values i _ (hq.pBounds ▸ hentry _))
  · exact between_of_clip hf.slopes.1 hf.slopes.2 (hrows.slopes i _ (hq.vBounds ▸ hentry _))
  · exact between_of_clip hf.bends.1 hf.bends.2 (hrows.bends i _ (hq.aBounds ▸ hentry _))

/-- The rows of a fit keep the second derivative from changing faster than the
    range of jerk allows. -/
theorem FitFor.change_between (hq : FitFor samples f q) (hf : f.Moderate)
    (hrows : q.EachRow (fun l u x => l ≤ x ∧ x ≤ u) z) {i : Nat} (hi : i + 1 < q.knots) :
    f.dddxRange.1 * q.step ≤ (stateAt q.knots z (i + 1)).a - (stateAt q.knots z i).a ∧
      (stateAt q.knots z (i + 1)).a - (stateAt q.knots z i).a ≤ f.dddxRange.2 * q.step := by
  have hrow := hrows.changes i hi
  rw [hq.jerkBounds, hq.step] at hrow
  rw [hq.step]
  exact between_of_clip (b := (f.dddxRange.1 * f.spacing, f.dddxRange.2 * f.spacing)) hf.changes.1
    hf.changes.2 hrow

end Rows

/-- A solver answers a problem with a profile that is accepted and keeps the
    rows of the problem. -/
structure ConvexSolver.Fits (solve : ConvexSolver R) (budget : Int) (q : KnotProblem R)
    (k : KnotProfile R) : Prop where
  answer : ∃ answer, solve budget q = .ok answer ∧ answer.status.accepted = true ∧
    answer.profile = k
  shaped : k.Shaped q.knots
  kept : q.Feasible k

/-- Whoever knows a profile that keeps the rows answers with it. -/
theorem ConvexSolver.Fits.knowing (budget : Int) {q : KnotProblem R} {k : KnotProfile R}
    (hshaped : k.Shaped q.knots) (hkept : q.Feasible k) :
    (ConvexSolver.knowing k).Fits budget q k := by
  refine ⟨⟨⟨.solved, 0, k⟩, ?_, rfl, rfl⟩, hshaped, hkept⟩
  rw [ConvexSolver.knowing, if_pos ⟨hshaped, hkept⟩]

/-- Checked settings make the problem of a fit from any start and any two
    samples or more, and every accepted answer that keeps its rows becomes a
    curve. The curve has a segment for each two neighbouring samples and is as
    long as they are apart. Everywhere on it the second and the third derivative
    lie in their ranges. At every knot it has the value and the slope of the
    answer, and these lie in their ranges too. -/
theorem fit_within {d : FitDraft R} {f : FitSettings R} (hf : d.checked = .ok f) (hm : f.Moderate)
    {samples : List R} (hsamples : 2 ≤ samples.length) (start : Motion R) (name : String) :
    ∃ q, fitProblem samples start f = .ok q ∧
      ∀ (solve : ConvexSolver R) k, solve.Fits f.budget q k →
        ∃ c, (fitCurve solve samples start f name).result = .ok c ∧
          c.segments.length + 1 = samples.length ∧
          c.length = ((samples.length - 1 : Nat) : R) * f.spacing ∧
          (∀ s, 0 ≤ s → s ≤ ((samples.length - 1 : Nat) : R) * f.spacing →
            (f.ddxRange.1 ≤ c.eval 2 s ∧ c.eval 2 s ≤ f.ddxRange.2) ∧
              f.dddxRange.1 ≤ c.eval 3 s ∧ c.eval 3 s ≤ f.dddxRange.2) ∧
          ∀ i : Nat, i < samples.length →
            (k.p[i]? = some (c.eval 0 (i * f.spacing)) ∧
              f.xRange.1 ≤ c.eval 0 (i * f.spacing) ∧ c.eval 0 (i * f.spacing) ≤ f.xRange.2) ∧
            k.v[i]? = some (c.eval 1 (i * f.spacing)) ∧
              f.dxRange.1 ≤ c.eval 1 (i * f.spacing) ∧
                c.eval 1 (i * f.spacing) ≤ f.dxRange.2 := by
  have hspacing := (FitDraft.checked_sound hf).spacing_pos
  rcases fitProblem_total start hsamples hspacing with ⟨q, hq⟩
  have hfor := fitProblem_for hq
  have hshape := fitProblem_wellFormed hq
  refine ⟨q, hq, fun solve k hk => ?_⟩
  rcases hk.answer with ⟨answer, hanswer, haccepted, hprofile⟩
  have hrows := (KnotProblem.hold_constraints_iff hshape).mp hk.kept
  rcases rebuild_feasible hshape hk.shaped hk.kept with ⟨c, hc, heven, hlength, hknot⟩
  have hsome : 0 < c.segments.length := by
    have := hfor.two_le_knots
    omega
  have hpoint (i : Nat) (hi : i < q.knots) :
      c.motionAt (i * f.spacing) = stateAt q.knots k.point i := by
    rw [← hknot i hi, ← hfor.step]
    exact heven.motionAt_knot hshape.step_pos (by omega)
  have hwhole : c.length = ((samples.length - 1 : Nat) : R) * f.spacing := by
    rw [heven.length_eq, hfor.step, ← hfor.knots, ← hlength, Nat.add_sub_cancel]
  rw [hfor.step, ← hprofile] at hc
  refine ⟨c, fitCurve_of_answer name hsamples hq hanswer haccepted hc, hlength.trans hfor.knots,
    hwhole, fun s hlow hhigh => ?_, fun i hi => ?_⟩
  · rw [← hwhole] at hhigh
    constructor
    · refine heven.bend_between hshape.step_pos hsome (b := f.ddxRange) (fun i hi => ?_) hlow hhigh
      rw [hknot i (by omega)]
      exact (hfor.contains hm hrows (by omega)).bend
    · refine heven.jerk_between hshape.step_pos hsome (b := f.dddxRange) (fun i hi => ?_) hlow hhigh
      rw [hknot i (by omega), hknot (i + 1) (by omega)]
      exact hfor.change_between hm hrows (by omega)
  · rw [← hfor.knots] at hi
    rcases stateAt_point hk.shaped hi with ⟨hvalue, hslope, _⟩
    have hinside := hfor.contains hm hrows hi
    rw [← hpoint i hi] at hvalue hslope hinside
    exact ⟨⟨hvalue, hinside.value⟩, hslope, hinside.slope⟩

/-- A limit that rises by twelve over four metres, with jerk both ways. -/
def climb : KnotProfile Rat := ⟨[0, 2, 12], [0, 3, 6], [0, 3, 0]⟩

/-- The usual fit of a speed limit takes the climb, and stays in its ranges
    between the knots as well. -/
theorem fit_within_climb :
    ∃ c, (fitCurve (.knowing climb) [0, 4, 12] ⟨0, 0, 0⟩ .speedLimit "speed limit").result =
        .ok c ∧
      c.length = 4 ∧ c.eval 0 4 = 12 ∧ ∀ s, 0 ≤ s → s ≤ 4 →
        (-10 ≤ c.eval 2 s ∧ c.eval 2 s ≤ 10) ∧ -10 ≤ c.eval 3 s ∧ c.eval 3 s ≤ 10 := by
  rcases (FitDraft.checked_iff _).mpr (FitSettings.speedLimit_sound (R := Rat)) with ⟨d, hd⟩
  have hm : (FitSettings.speedLimit : FitSettings Rat).Moderate := by
    constructor <;> decide +kernel
  have hthree : 2 ≤ [(0 : Rat), 4, 12].length := by decide
  rcases fit_within hd hm hthree ⟨0, 0, 0⟩ "speed limit" with ⟨q, hq, hfit⟩
  have hkept : ((fitProblem [0, 4, 12] ⟨0, 0, 0⟩ .speedLimit).toOption.all fun q =>
      decide (q.knots = 3 ∧ q.Feasible climb)) = true := by
    decide +kernel
  rw [hq, Except.toOption, Option.all_some, decide_eq_true_eq] at hkept
  have hshaped : climb.Shaped q.knots := by
    rw [hkept.1]
    exact ⟨rfl, rfl, rfl⟩
  rcases hfit _ _ (.knowing _ hshaped hkept.2) with ⟨c, hc, _, hlength, hinside, hknots⟩
  have hspacing : (FitSettings.speedLimit : FitSettings Rat).spacing = 2 := rfl
  have hreach : ((([(0 : Rat), 4, 12].length - 1 : Nat) : Rat)) * 2 = 4 := by decide +kernel
  rw [hspacing, hreach] at hlength hinside
  have hlast := (hknots 2 (by decide)).1.1
  rw [hspacing, show ((2 : Nat) : Rat) * 2 = 4 by decide +kernel] at hlast
  exact ⟨c, hc, hlength, (Option.some.inj hlast).symm, hinside⟩

end JerkPlan
