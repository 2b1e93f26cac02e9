import Mathlib
import JerkPlan.Proofs.JoinedCurves

/-!
# Smooth curves

Over the real numbers a joined curve is twice continuously differentiable.

Real numbers are exact scalars like any others, except that nothing runs on them: they are
here because derivatives are. On one segment value, slope and bend are polynomials, each
the derivative of the one before. A curve with one more segment is what it was up to its
old end, and the new segment from there on. There both have the same value, slope and
bend, since segments join. So `hasDerivAt_glue` is all the analysis there is, used once for
the value and once for the slope. Before the start and beyond the end a curve goes on as
its outer segments do, so nothing is different there.

A curve without segments is constant in value, slope and bend alike. Its value is as
smooth as the others, but its slope is not the derivative of it.

## Main definitions

* `JerkCurve.Smooth`: Slope and bend are derivatives, and the bend is continuous.

## Theorems

* `hasDerivAt_glue`: Two functions that meet in value and slope.
* `JerkSegment.hasDerivAt_value`, `JerkSegment.hasDerivAt_slope`: One segment.
* `JerkCurve.Smooth.contDiff`: Smooth curves are twice continuously differentiable.
* `JerkCurve.Joined.smooth_extend`: One more segment keeps a curve smooth.
* `JerkCurve.smooth_history`: Every curve that comes about is smooth.
* `JerkCurve.history_smooth`: What holds of a curve after any history.
-/

namespace JerkPlan

/-! Real scalars -/

noncomputable instance : Scalar ℝ where
  decLt := inferInstance
  decLe := inferInstance
  truncate x := .ok (if 0 ≤ x then ⌊x⌋ else ⌈x⌉)

noncomputable instance : ExactScalar ℝ where
  integral_of_nonneg x h :=
    ⟨⌊x⌋, congrArg Except.ok (if_pos h), Int.floor_le x, Int.lt_floor_add_one x⟩
  integral_of_nonpos x h := by
    refine ⟨⌈x⌉, congrArg Except.ok ?_, Int.le_ceil x, Int.ceil_lt_add_one x⟩
    rcases h.eq_or_lt with rfl | hlt
    · rw [if_pos le_rfl, Int.floor_zero, Int.ceil_zero]
    · rw [if_neg (not_le.mpr hlt)]

/-- Two functions that have the same value and the same slope at a place are differentiable
    as one function that is the first up to there and the second beyond. -/
theorem hasDerivAt_glue {f g f' g' : ℝ → ℝ} {a : ℝ} (hf : ∀ x, HasDerivAt f (f' x) x)
    (hg : ∀ x, HasDerivAt g (g' x) x) (hvalue : f a = g a) (hslope : f' a = g' a) (x : ℝ) :
    HasDerivAt (fun y => if y ≤ a then f y else g y) (if x ≤ a then f' x else g' x) x := by
  rcases lt_trichotomy x a with hlt | rfl | hgt
  · rw [if_pos hlt.le]
    refine (hf x).congr_of_eventuallyEq ?_
    filter_upwards [Iio_mem_nhds hlt] with y hy
    exact if_pos (le_of_lt hy)
  · -- Where the two meet, each gives the derivative from its side.
    have hright (y : ℝ) (hy : y ∈ Set.Ici x) : (if y ≤ x then f y else g y) = g y := by
      rcases (Set.mem_Ici.mp hy).eq_or_lt with rfl | hlt
      · rw [if_pos le_rfl, hvalue]
      · rw [if_neg (not_le.mpr hlt)]
    rw [if_pos le_rfl, ← hasDerivWithinAt_univ, ← Set.Iic_union_Ici (a := x)]
    refine HasDerivWithinAt.union ?_ ?_
    · exact (hf x).hasDerivWithinAt.congr (fun y hy => if_pos hy) (if_pos le_rfl)
    · rw [hslope]
      exact (hg x).hasDerivWithinAt.congr hright (hright x Set.self_mem_Ici)
  · rw [if_neg (not_le.mpr hgt)]
    refine (hg x).congr_of_eventuallyEq ?_
    filter_upwards [Ioi_mem_nhds hgt] with y hy
    exact if_neg (not_le.mpr hy)

/-! Segments -/

namespace JerkSegment

/-- The slope of a segment is the derivative of its value. -/
theorem hasDerivAt_value (g : JerkSegment ℝ) (x : ℝ) : HasDerivAt (g.eval 0) (g.eval 1 x) x := by
  have hcubic : g.eval 0 = fun y => g.p + g.v * y + g.a / 2 * y ^ 2 + g.jerk / 6 * y ^ 3 := by
    funext y
    simp only [eval, half_eq]
    push_cast
    ring
  rw [hcubic]
  refine (((((hasDerivAt_id' x).const_mul g.v).const_add g.p).add
    ((hasDerivAt_pow 2 x).const_mul (g.a / 2))).add
    ((hasDerivAt_pow 3 x).const_mul (g.jerk / 6))).congr_deriv ?_
  simp only [eval, half_eq]
  push_cast
  ring

/-- Its bend is the derivative of its slope. -/
theorem hasDerivAt_slope (g : JerkSegment ℝ) (x : ℝ) : HasDerivAt (g.eval 1) (g.eval 2 x) x := by
  have hsquare : g.eval 1 = fun y => g.v + g.a * y + g.jerk / 2 * y ^ 2 := by
    funext y
    simp only [eval, half_eq]
    ring
  rw [hsquare]
  refine ((((hasDerivAt_id' x).const_mul g.a).const_add g.v).add
    ((hasDerivAt_pow 2 x).const_mul (g.jerk / 2))).congr_deriv ?_
  simp only [eval]
  push_cast
  ring

theorem continuous_bend (g : JerkSegment ℝ) : Continuous (g.eval 2) :=
  continuous_const.add (continuous_const.mul continuous_id)

end JerkSegment

/-! Curves -/

namespace JerkCurve

variable {c : JerkCurve ℝ} {jerk length : ℝ}

/-- The slope of a curve is the derivative of its value and its bend that of its slope, and
    the bend is continuous. -/
structure Smooth (c : JerkCurve ℝ) : Prop where
  slope : ∀ x, HasDerivAt (c.eval 0) (c.eval 1 x) x
  bend : ∀ x, HasDerivAt (c.eval 1) (c.eval 2 x) x
  continuous : Continuous (c.eval 2)

theorem Smooth.contDiff (h : c.Smooth) : ContDiff ℝ 2 (c.eval 0) := by
  have hslope : deriv (c.eval 0) = c.eval 1 := funext fun x => (h.slope x).deriv
  have hbend : deriv (c.eval 1) = c.eval 2 := funext fun x => (h.bend x).deriv
  have honce : ContDiff ℝ 1 (c.eval 1) := by
    rw [contDiff_one_iff_deriv, hbend]
    exact ⟨fun x => (h.bend x).differentiableAt, h.continuous⟩
  rw [show (2 : WithTop ℕ∞) = 1 + 1 from rfl, contDiff_succ_iff_deriv, hslope]
  exact ⟨fun x => (h.slope x).differentiableAt, fun hone => absurd hone (by simp), honce⟩

/-- What is read on one segment, from wherever it begins, is smooth. -/
theorem smooth_of_segment {g : JerkSegment ℝ} {a : ℝ}
    (h : ∀ order x, c.eval order x = g.eval order (x - a)) : c.Smooth := by
  have heval (order : Int) : c.eval order = fun x => g.eval order (x - a) := funext (h order)
  constructor
  · intro x
    rw [heval 0, heval 1]
    exact (g.hasDerivAt_value (x - a)).comp_sub_const x a
  · intro x
    rw [heval 1, heval 2]
    exact (g.hasDerivAt_slope (x - a)).comp_sub_const x a
  · rw [heval 2]
    exact g.continuous_bend.comp (continuous_id.sub continuous_const)

/-- One more segment makes a curve smooth, or keeps it so. -/
theorem Joined.smooth_extend (h : c.Joined) (hlength : 0 < length)
    (hsmooth : 0 < c.segments.length → c.Smooth) : (c.extend jerk length).Smooth := by
  rcases Nat.eq_zero_or_pos c.segments.length with hnone | hsome
  · -- Without other segments all of the line is read on the new one.
    exact smooth_of_segment fun order x => h.eval_extend_of_lt hlength (.inl hnone) order
  specialize hsmooth hsome
  -- The two parts, with what is known of each.
  have hparts (order : Int) : (c.extend jerk length).eval order = fun x =>
      if x ≤ c.length then c.eval order x else (c.next jerk length).eval order (x - c.length) := by
    funext x
    by_cases hx : x ≤ c.length
    · rw [if_pos hx, h.eval_extend_of_le hlength hsome hx]
    · rw [if_neg hx, h.eval_extend_of_lt hlength (.inr (not_le.mp hx))]
  have hvalue (x : ℝ) := ((c.next jerk length).hasDerivAt_value (x - c.length)).comp_sub_const x
  have hslope (x : ℝ) := ((c.next jerk length).hasDerivAt_slope (x - c.length)).comp_sub_const x
  have hbend : Continuous fun x => (c.next jerk length).eval 2 (x - c.length) :=
    (c.next jerk length).continuous_bend.comp (continuous_id.sub continuous_const)
  -- Where they meet, the new segment begins as the curve ends.
  have hmeet : c.motionAt c.length = ⟨(c.next jerk length).eval 0 (c.length - c.length),
      (c.next jerk length).eval 1 (c.length - c.length),
      (c.next jerk length).eval 2 (c.length - c.length)⟩ := by
    rw [sub_self, JerkSegment.motion_zero, h.motionAt_length hsome]
    rfl
  rw [motionAt, Motion.mk.injEq] at hmeet
  rcases hmeet with ⟨hmeet, hmeet', hmeet''⟩
  constructor
  · intro x
    rw [hparts 0, hparts 1]
    exact hasDerivAt_glue hsmooth.slope hvalue hmeet hmeet' x
  · intro x
    rw [hparts 1, hparts 2]
    exact hasDerivAt_glue hsmooth.bend hslope hmeet' hmeet'' x
  · rw [hparts 2]
    refine hsmooth.continuous.if_le hbend continuous_id continuous_const fun x hx => ?_
    have hplace : x = c.length := hx
    rw [hplace]
    exact hmeet''

variable (start : Motion ℝ) (calls : List (ℝ × ℝ))

/-- Every curve with segments is smooth, whatever was asked for before. -/
theorem smooth_history (hsome : 0 < (history start calls).segments.length) :
    (history start calls).Smooth := by
  refine (of_history start (fun c => c.Joined ∧ (0 < c.segments.length → c.Smooth)) ?_ ?_
    calls).2 hsome
  · exact ⟨joined_ofStart start, fun hempty => absurd hempty (Nat.lt_irrefl 0)⟩
  · exact fun c jerk length h hlength =>
      ⟨h.1.extend hlength, fun _ => h.1.smooth_extend hlength h.2⟩

/-- Without segments the value is the one at the start. -/
theorem eval_zero_of_empty (h : c.segments.length = 0) : c.eval 0 = fun _ => c.start.p := by
  funext x
  have hget (j : Nat) : c.segments[j]? = none := List.getElem?_eq_none (by omega)
  simp only [eval, hget]

/-- A curve is made of the segments that were accepted, and a refused one changes nothing.
    The breaks increase up to the length of the curve, which is what the accepted lengths
    add up to. Every segment begins as the one before it ends, and at the break between
    them the curve is read as both. So the value is twice continuously differentiable on the
    whole line, and as soon as there is a segment, what is read as slope and bend are its
    derivatives. -/
theorem history_smooth : ∃ c, history start calls = c ∧
    (∀ call : ℝ × ℝ, call.2 ≤ 0 →
      c.attempt call = (c, some (.invalid (.notPositive "segment length" (some call.2))))) ∧
    (∀ call : ℝ × ℝ, 0 < call.2 → (c.attempt call).2 = none) ∧
    c.segments.map (fun g => (g.jerk, g.length)) = calls.filter (fun call => 0 < call.2) ∧
    c.breaks.length = c.segments.length ∧ c.breaks.Pairwise (· < ·) ∧
    (∀ x, c.breaks.getLast? = some x → x = c.length) ∧
    c.length = ((calls.filter fun call => 0 < call.2).map (·.2)).sum ∧
    (∀ g, c.segments[0]? = some g → g.start = start) ∧
    (∀ (i : Nat) (g g' : JerkSegment ℝ), c.segments[i]? = some g →
      c.segments[i + 1]? = some g' → g'.start = g.finish ∧
      ∃ x, c.breaks[i]? = some x ∧ c.motionAt x = g.finish ∧ c.motionAt x = g'.start) ∧
    ContDiff ℝ 2 (c.eval 0) ∧
    (c.segments ≠ [] → ∀ x, HasDerivAt (c.eval 0) (c.eval 1 x) x ∧
      HasDerivAt (c.eval 1) (c.eval 2 x) x) := by
  have hjoined := joined_history start calls
  have haccepted := accepted_history start calls
  have hstart := start_history start calls
  have hsmooth := smooth_history start calls
  generalize history start calls = c at hjoined haccepted hstart hsmooth
  have hnext (i : Nat) (g g' : JerkSegment ℝ) (hg : c.segments[i]? = some g)
      (hg' : c.segments[i + 1]? = some g') : g'.start = g.finish := by
    rw [hjoined.joins _ g' hg', knot, hg, Option.elim_some]
  refine ⟨c, rfl, fun call h => c.attempt_of_nonpos h, fun call h => ?_, haccepted,
    hjoined.length_breaks, hjoined.rising, fun x hx => ?_, ?_, fun g hg => ?_,
    fun i g g' hg hg' => ⟨hnext i g g' hg hg', ?_⟩, ?_, fun hsome => ?_⟩
  · rw [c.attempt_of_pos h]
  · rw [length, hx, Option.getD_some]
  · -- All segments together are as long as what was accepted.
    rw [hjoined.length_eq, reach, List.take_length, ← haccepted, List.map_map]
    rfl
  · rw [hjoined.joins 0 g hg, knot, hstart]
  · have hi := (List.getElem?_eq_some_iff.mp hg').1
    have hpasses : c.motionAt (c.reach (i + 1)) = g.finish := by
      rw [hjoined.motionAt_reach (by omega) hi.le, knot, hg, Option.elim_some]
    exact ⟨_, hjoined.break_eq (by omega), hpasses, hpasses.trans (hnext i g g' hg hg').symm⟩
  · -- The derivative of a constant is not its slope, but it is smooth all the same.
    rcases Nat.eq_zero_or_pos c.segments.length with hnone | hsome
    · rw [eval_zero_of_empty hnone]
      exact contDiff_const
    · exact (hsmooth hsome).contDiff
  · have h := hsmooth (List.length_pos_iff.mpr hsome)
    exact fun x => ⟨h.slope x, h.bend x⟩

/-- The second of three calls is refused. -/
theorem history_smooth_refused : ∃ c, history ⟨0, 1, 0⟩ [(1, 1), (5, 0), (-2, 3)] = c ∧
    c.segments.map (fun g => (g.jerk, g.length)) = [((1 : ℝ), 1), (-2, 3)] ∧ c.length = 4 ∧
    c.breaks.Pairwise (· < ·) ∧ ContDiff ℝ 2 (c.eval 0) ∧
    ∀ x, HasDerivAt (c.eval 0) (c.eval 1 x) x ∧ HasDerivAt (c.eval 1) (c.eval 2 x) x := by
  rcases history_smooth ⟨0, 1, 0⟩ [(1, 1), (5, 0), (-2, 3)] with
    ⟨c, hc, _, _, haccepted, _, hrising, _, hlength, _, _, hvalue, hderivatives⟩
  have hfilter : [((1 : ℝ), (1 : ℝ)), (5, 0), (-2, 3)].filter (fun call => 0 < call.2) =
      [(1, 1), (-2, 3)] := by
    norm_num [List.filter_cons]
  rw [hfilter] at haccepted hlength
  have hsome : c.segments ≠ [] := fun hnone => by
    rw [hnone, List.map_nil] at haccepted
    exact absurd haccepted (List.cons_ne_nil _ _).symm
  refine ⟨c, hc, haccepted, ?_, hrising, hvalue, hderivatives hsome⟩
  rw [hlength]
  norm_num

end JerkCurve

end JerkPlan
