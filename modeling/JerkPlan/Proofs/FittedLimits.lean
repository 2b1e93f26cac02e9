import JerkPlan.Proofs.CurveTables
import JerkPlan.Proofs.FittedCurves

/-!
# Fitted speed limits

How a speed limit comes into a refinement: where it begins, and how far it goes.

On its way the limit is sampled, fitted, rebuilt as a curve, tabulated and made
a smooth function. `fitSpeedLimit_eq` is the first of these steps: the fit of a
limit is one through samples of it, and starts at the first one. What the
others do to it shows at two places.

One is the end. How many samples are taken is a setting, and the length of the
path is none, so the curve is as long as the samples are apart and not as long
as the path. A table that reaches further holds the last value, and a change of
the limit behind that place is never heard of. `fitSpeedLimit_reach` says where
the one turns into the other, and `fitSpeedLimit_fallsShort` is a road that is
longer than its usual fit.

The other is the start. A cycle asks the limit itself whether refining makes
sense, and the refinement asks a row of its program. Nothing on the way moves
the value there: the rows of the fit hold the curve to the first sample, the
table begins with the value of the curve, and whatever goes through the table
has it at zero. Only solvers do not read numbers beyond `Endpoint.huge`. A limit
out of this range is fitted as if it were at its end, and
`clip_tolerance_iff` says when that makes no difference.

## Main definitions

* `FitSettings.count`: How many samples of a limit are taken.
* `SpeedLimit.Sampled`: Samples of a limit.
* `throughVillage`, `enormous`: A road that is too long, and a limit too large.

## Theorems

* `fitSpeedLimit_eq`: The fit of a limit is one through samples of it.
* `fitCurve_even`, `fitCurve_start`: The segments of a fitted curve, and where it
  starts.
* `RefinementProblem.splines_limit`: The table of the limit of a refinement.
* `fitSpeedLimit_reach`: How far a fitted limit goes.
* `fitSpeedLimit_fallsShort`: It need not go as far as the path.
* `RefinementProblem.limitRow_start`, `clip_tolerance_iff`: The row of the limit
  at the start, and what clipping leaves of it.
* `Planner.startsWithinLimit_iff_row`: The check before a refinement and the row
  agree.
* `Planner.startsWithinLimit_misread`: They need not beyond what solvers read.
-/

namespace JerkPlan

variable {R : Type} [ExactScalar R]

/-! Samples -/

/-- How many samples of a speed limit a fit takes. -/
def FitSettings.count {R : Type} (f : FitSettings R) : Nat :=
  if 0 < f.samples then f.samples.toNat else 100

theorem FitSettings.count_pos {R : Type} (f : FitSettings R) : 0 < f.count := by
  unfold count
  split <;> omega

/-- Samples of a speed limit at places the spacing of a fit apart. -/
structure SpeedLimit.Sampled (l : SpeedLimit R) (f : FitSettings R) (samples : List R) : Prop where
  length : samples.length = f.count
  entries : ∀ (i : Nat) v, samples[i]? = some v → l.limitAt ((i : R) * f.spacing) = .ok v

/-- Samples of a speed limit that is the same at all of their places are the
    same, and so is the first one. -/
theorem SpeedLimit.Sampled.same {l : SpeedLimit R} {f : FitSettings R} {samples : List R}
    (h : l.Sampled f samples) {v w : R} (hfirst : samples[0]? = some w)
    (hsame : ∀ i < f.count, (l.limitAt ((i : R) * f.spacing)).toOption = some v) :
    samples = List.replicate f.count v ∧ w = v := by
  have hentry (i : Nat) (x : R) (hx : samples[i]? = some x) : x = v := by
    have hv := hsame i (h.length ▸ (List.getElem?_eq_some_iff.mp hx).1)
    rw [h.entries i x hx] at hv
    exact Option.some.inj hv
  refine ⟨List.eq_replicate_iff.mpr ⟨h.length, fun x hx => ?_⟩, hentry 0 w hfirst⟩
  rcases List.mem_iff_getElem?.mp hx with ⟨i, hi⟩
  exact hentry i x hi

/-- The fit of a speed limit is one through samples of it, and starts at the
    first one. -/
theorem fitSpeedLimit_eq {limit : SpeedLimit R} (hlimit : 2 ≤ limit.points.length)
    (f : FitSettings R) :
    ∃ samples v, limit.Sampled f samples ∧ samples[0]? = some v ∧ ∀ solve,
      (fitSpeedLimit solve limit f).result =
        (fitCurve solve samples ⟨v, 0, 0⟩ f "speed limit").result := by
  rcases mapM_total (List.range f.count)
    fun i _ => limit.limitAt_total hlimit ((i : R) * f.spacing) with ⟨samples, hsamples, hlength⟩
  rw [List.length_range] at hlength
  have hsampled : limit.Sampled f samples := by
    refine ⟨hlength, fun i v hv => ?_⟩
    have hi := (List.getElem?_eq_some_iff.mp hv).1
    exact mapM_entry _ hsamples i i v (List.getElem?_range (by omega)) hv
  have hpos := f.count_pos
  rcases samples with _ | ⟨v, rest⟩
  · rw [List.length_nil] at hlength
    omega
  · refine ⟨v :: rest, v, hsampled, rfl, fun solve => ?_⟩
    unfold fitSpeedLimit
    simp only
    rw [if_neg (Nat.not_lt.mpr hlimit)]
    change (Outcome.of ((List.range f.count).mapM _) >>= _).result = _
    rw [hsamples]
    rfl

/-- A fitted speed limit has two points. -/
theorem fitSpeedLimit_two {solve : ConvexSolver R} {limit : SpeedLimit R} {f : FitSettings R}
    {c : JerkCurve R} (hc : (fitSpeedLimit solve limit f).result = .ok c) :
    2 ≤ limit.points.length := by
  unfold fitSpeedLimit at hc
  exact Nat.not_lt.mp (Outcome.ite_fail_ok hc).1

/-! Reach -/

/-- A fitted curve is even, with a segment for each two neighbouring samples. -/
theorem fitCurve_even {solve : ConvexSolver R} (hsolve : solve.Sized) {samples : List R}
    {start : Motion R} {f : FitSettings R} {name : String} {c : JerkCurve R}
    (hc : (fitCurve solve samples start f name).result = .ok c) :
    c.Even f.spacing ∧ 0 < f.spacing ∧ c.segments.length + 1 = samples.length := by
  rcases fitCurve_ok hc with ⟨q, answer, hq, hanswer, haccepted, hrebuilt⟩
  have hfor := fitProblem_for hq
  have hknots := hfor.two_le_knots
  have hstep := hfor.step ▸ hfor.step_pos
  rcases rebuild_even hstep (by omega : 0 < q.knots) (hsolve _ _ _ hanswer haccepted) with
    ⟨c', hc', heven, hlength, _⟩
  rw [Except.ok.inj (hrebuilt.symm.trans hc')]
  exact ⟨heven, hstep, hlength.trans hfor.knots⟩

/-- The smooth function of a refinement's speed limit goes through its table,
    which reaches to the end of the path. -/
theorem RefinementProblem.splines_limit {r : RefinementProblem R} {kappa bound : Spline R}
    (h : r.splines = .ok (kappa, bound)) {limit : JerkCurve R} (hlimit : r.limit = some limit) :
    ∃ t n, bound = .ofTable t ∧ t.Spaced n ∧ r.horizon.length ≤ t.finish ∧
      ∀ i ≤ n, t.values[i]? = some (limit.eval 0 (min ((i : R) * t.spacing) limit.length)) := by
  rcases splines_ok h with ⟨_, _, reach, _, hsome, hreach, _, hbound⟩
  rw [hlimit, Option.some.injEq] at hsome
  subst hsome
  rcases Spline.ofCurve_ok hbound with ⟨t, ht, hofTable⟩
  rcases CurveTable.ofCurve_spaced (decimal_pos (by omega) 1) ht with
    ⟨n, hspaced, hfinish, hvalues⟩
  refine ⟨t, n, hofTable, hspaced, ?_, hvalues⟩
  rw [hfinish, CurveTable.finishFor_eq]
  exact (le_reach hreach).1.trans ((le_max_left _ _).trans (le_max_left _ _))

/-- A fit of a positive number of samples is one through just as many samples of
    the speed limit, and as long as they are apart. So it covers a path exactly
    when they do. The function that a refinement looks the limit up in goes as
    far as the path in any case. At the places of its table it is the curve as
    far as this goes, and the end of the curve from there on. -/
theorem fitSpeedLimit_reach {solve : ConvexSolver R} (hsolve : solve.Sized) {limit : SpeedLimit R}
    {f : FitSettings R} (hcount : 0 < f.samples) {c : JerkCurve R}
    (hc : (fitSpeedLimit solve limit f).result = .ok c) :
    (∃ samples v, limit.Sampled f samples ∧ samples.length = f.samples.toNat ∧
      samples[0]? = some v ∧
      (fitCurve solve samples ⟨v, 0, 0⟩ f "speed limit").result = .ok c) ∧
    c.length = ((f.samples.toNat - 1 : Nat) : R) * f.spacing ∧
    ∀ (p : Planner R) h plan curvature r kappa bound,
      (p.refinement h plan curvature c).result = .ok r → r.splines = .ok (kappa, bound) →
        (h.length ≤ c.length ↔ h.length ≤ ((f.samples.toNat - 1 : Nat) : R) * f.spacing) ∧
        ∃ t n, bound = .ofTable t ∧ t.Spaced n ∧ h.length ≤ t.finish ∧ ∀ i : Nat, i ≤ n →
          ((i : R) * t.spacing ≤ c.length →
            bound.eval (i * t.spacing) = c.eval 0 (i * t.spacing)) ∧
          (c.length ≤ i * t.spacing → bound.eval (i * t.spacing) = c.eval 0 c.length) := by
  rcases fitSpeedLimit_eq (fitSpeedLimit_two hc) f with ⟨samples, v, hsampled, hfirst, hfit⟩
  rw [hfit] at hc
  have hsize : samples.length = f.samples.toNat := by
    rw [hsampled.length, FitSettings.count, if_pos hcount]
  rcases fitCurve_even hsolve hc with ⟨heven, _, hlength⟩
  have hwhole : c.length = ((f.samples.toNat - 1 : Nat) : R) * f.spacing := by
    rw [heven.length_eq, ← hsize, ← hlength, Nat.add_sub_cancel]
  refine ⟨⟨samples, v, hsampled, hsize, hfirst, hc⟩, hwhole,
    fun p h plan curvature r kappa bound hr hsplines => ?_⟩
  refine ⟨by rw [hwhole], ?_⟩
  rcases RefinementProblem.splines_limit hsplines (Planner.refinement_curves hr).2 with
    ⟨t, n, rfl, hspaced, hreach, hvalues⟩
  rw [(Planner.refinement_for hr).horizon] at hreach
  refine ⟨t, n, rfl, hspaced, hreach, fun i hi => ?_⟩
  rw [Spline.ofTable_node hspaced (hvalues i hi)]
  exact ⟨fun hinside => by rw [min_eq_left hinside], fun hbeyond => by rw [min_eq_right hbeyond]⟩

/-- Two knots of a rider have a refinement with smooth functions of its curves. -/
theorem rider_refinement {x : Surroundings Rat} {h : Horizon Rat}
    (hh : (rider.horizon ⟨[]⟩ x).result = .ok h) (hknots : h.knots = 2) (c : JerkCurve Rat) :
    ∃ r kappa bound,
      (rider.refinement h ⟨[0, 1], [1, 1], [0, 0]⟩ (.ofStart ⟨0, 0, 0⟩) c).result = .ok r ∧
        r.splines = .ok (kappa, bound) := by
  have hfits := Planner.horizon_fits hh (by omega)
  have hplan : KnotProfile.Shaped h.knots.toNat ⟨[(0 : Rat), 1], [1, 1], [0, 0]⟩ := by
    rw [show h.knots.toNat = 2 by omega]
    exact ⟨rfl, rfl, rfl⟩
  rcases rider.refinement_total hfits hplan (.ofStart ⟨0, 0, 0⟩) c with ⟨r, hr, _⟩
  rcases Planner.refinement_splines hfits hr with ⟨kappa, bound, hsplines⟩
  exact ⟨r, kappa, bound, hr, hsplines⟩

/-- Three hundred metres of road, the last hundred of them in a village. -/
def throughVillage : Surroundings Rat where
  regions := []
  length := 300
  time := 1
  speed := 1
  acceleration := 0
  limit := ⟨[(0, 20), (199, 20), (202, 5)]⟩
  cruiseSpeed := 20
  legalSpeed := 20
  brake := none
  arrived := false

/-- The usual fit takes a hundred samples two metres apart, all of them before
    the village, and so is the constant. -/
theorem throughVillage_fit : ∃ c,
    (fitSpeedLimit .level throughVillage.limit rider.settings.limitFit).result = .ok c ∧
      c.Flat 20 ∧ c.length = 198 := by
  rcases fitSpeedLimit_eq (by decide : 2 ≤ throughVillage.limit.points.length)
    rider.settings.limitFit with ⟨samples, v, hsampled, hfirst, hfit⟩
  have hbefore : ∀ i < rider.settings.limitFit.count, (throughVillage.limit.limitAt
      ((i : Rat) * rider.settings.limitFit.spacing)).toOption = some 20 := by decide +kernel
  rcases hsampled.same hfirst hbefore with ⟨hsamples, rfl⟩
  change samples = List.replicate 100 20 at hsamples
  subst hsamples
  rcases fitProblem_total (⟨20, 0, 0⟩ : Motion Rat)
    (by decide : 2 ≤ (List.replicate 100 (20 : Rat)).length)
    (by decide +kernel : 0 < rider.settings.limitFit.spacing) with ⟨q, hq⟩
  have hknots : q.knots = 100 := (fitProblem_for hq).knots.trans List.length_replicate
  have hanswer : ConvexSolver.level rider.settings.limitFit.budget q =
      .ok ⟨.solved, 0, .level 100 20⟩ := by
    rw [ConvexSolver.level, if_neg (by decide), hknots, fitProblem_start hq]
    rfl
  rcases rebuild_level (by decide : 0 < 100)
    (by decide +kernel : 0 < rider.settings.limitFit.spacing) 20 with ⟨c, hc, hflat⟩
  have hresult := fitCurve_of_answer "speed limit" (by decide) hq hanswer rfl hc
  rcases fitCurve_even ConvexSolver.dependable_level.shaped hresult with ⟨heven, _, hlength⟩
  rw [List.length_replicate] at hlength
  refine ⟨c, (hfit _).trans hresult, hflat, ?_⟩
  rw [heven.length_eq, show c.segments.length = 99 by omega]
  decide +kernel

/-- The usual fit of a long road ends before the road does, although there are
    samples to take: what the limit is in the village never shows in it. -/
theorem fitSpeedLimit_fallsShort : ∃ h c,
    (rider.horizon ⟨[]⟩ throughVillage).result = .ok h ∧ 0 < rider.settings.limitFit.samples ∧
      (fitSpeedLimit .level throughVillage.limit rider.settings.limitFit).result = .ok c ∧
      c.length = 198 ∧ h.length = 300 ∧ ¬ h.length ≤ c.length ∧
      (throughVillage.limit.limitAt 250).toOption = some 5 ∧ ∀ s, c.eval 0 s = 20 := by
  have hmade : ((rider.horizon ⟨[]⟩ throughVillage).result.toOption.map fun h => h.length) =
      some 300 := by decide +kernel
  rcases exists_of_toOption_map hmade with ⟨h, hh, hlength⟩
  rcases throughVillage_fit with ⟨c, hc, hflat, hwhole⟩
  refine ⟨h, c, hh, by decide, hc, hwhole, hlength, ?_, by decide +kernel, fun s => ?_⟩
  · rw [hlength, hwhole]
    decide +kernel
  · rw [hflat.eval, if_pos rfl]

/-- On the same road a refinement looks the limit up in a table of the whole
    road, and finds the end of the curve from its end on. -/
theorem fitSpeedLimit_reach_throughVillage : 0 < rider.settings.limitFit.samples ∧
    ∃ h c r kappa bound t n, (rider.horizon ⟨[]⟩ throughVillage).result = .ok h ∧
      (fitSpeedLimit .level throughVillage.limit rider.settings.limitFit).result = .ok c ∧
      (rider.refinement h ⟨[0, 1], [1, 1], [0, 0]⟩ (.ofStart ⟨0, 0, 0⟩) c).result = .ok r ∧
      r.splines = .ok (kappa, bound) ∧ c.length = 198 ∧ bound = .ofTable t ∧ t.Spaced n ∧
      300 ≤ t.finish ∧ ∀ i : Nat, i ≤ n → 198 ≤ (i : Rat) * t.spacing →
        bound.eval (i * t.spacing) = c.eval 0 198 := by
  have hmade : ((rider.horizon ⟨[]⟩ throughVillage).result.toOption.map fun h =>
      (h.knots, h.length)) = some (2, 300) := by decide +kernel
  rcases exists_of_toOption_map hmade with ⟨h, hh, hparts⟩
  rcases Prod.mk.inj hparts with ⟨hknots, hlength⟩
  rcases throughVillage_fit with ⟨c, hc, _, _⟩
  rcases rider_refinement hh hknots c with ⟨r, kappa, bound, hr, hsplines⟩
  have hsamples : 0 < rider.settings.limitFit.samples := by decide
  rcases fitSpeedLimit_reach ConvexSolver.dependable_level.shaped hsamples hc with
    ⟨_, hwhole, hlooked⟩
  rcases hlooked rider h _ _ r kappa bound hr hsplines with
    ⟨_, t, n, hbound, hspaced, hreach, hvalues⟩
  have hend : c.length = 198 := hwhole.trans (by decide +kernel)
  rw [hlength] at hreach
  refine ⟨hsamples, h, c, r, kappa, bound, t, n, hh, hc, hr, hsplines, hend, hbound, hspaced,
    hreach, fun i hi hbeyond => ?_⟩
  rw [← hend]
  exact (hvalues i hi).2 (hend.le.trans hbeyond)

/-! The start -/

/-- A fitted curve starts at its first sample, as far as solvers read it. -/
theorem fitCurve_start {solve : ConvexSolver R} {samples : List R} {start : Motion R}
    {f : FitSettings R} {q : KnotProblem R} (hq : fitProblem samples start f = .ok q)
    {k : KnotProfile R} (hk : solve.Fits f.budget q k) (name : String) :
    ∃ c, (fitCurve solve samples start f name).result = .ok c ∧ 0 ≤ c.length ∧
      c.eval 0 0 = (Endpoint.finite start.p).clip := by
  have hfor := fitProblem_for hq
  have hknots := hfor.two_le_knots
  have hshape := fitProblem_wellFormed hq
  rcases hk.answer with ⟨answer, hanswer, haccepted, hprofile⟩
  rcases rebuild_feasible hshape hk.shaped hk.kept with ⟨c, hc, heven, _, hknot⟩
  have hrows := ((KnotProblem.hold_constraints_iff hshape).mp hk.kept).start _ _ _
    (fitProblem_start hq)
  have hfirst : c.motionAt (((0 : Nat) : R) * q.step) = stateAt q.knots k.point 0 := by
    rw [heven.motionAt_knot hshape.step_pos (Nat.zero_le _), hknot 0 (by omega)]
  rw [Nat.cast_zero, zero_mul] at hfirst
  rw [hfor.step, ← hprofile] at hc
  refine ⟨c, fitCurve_of_answer name (hfor.knots ▸ hknots) hq hanswer haccepted hc, ?_, ?_⟩
  · rw [heven.length_eq]
    exact mul_nonneg (Nat.cast_nonneg _) hshape.step_pos.le
  · -- Two equal bounds leave the start one value.
    rw [← hfirst] at hrows
    exact le_antisymm hrows.1.2 hrows.1.1

/-- At the start the row of the speed limit takes the first value of the fitted
    curve away from the speed, whatever function goes through the table. -/
theorem RefinementProblem.limitRow_start {r : RefinementProblem R} {kappa bound : Spline R}
    (h : r.splines = .ok (kappa, bound)) {c : JerkCurve R} (hlimit : r.limit = some c)
    (hlength : 0 ≤ c.length) :
    ∃ t, bound = .ofTable t ∧ t.Interpolates bound.eval ∧ ∀ g, t.Interpolates g →
      ∀ y, (stateAt r.knots y 0).p = 0 →
        (r.limitRow g 0).value y = (stateAt r.knots y 0).v - c.eval 0 0 := by
  rcases splines_limit h hlimit with ⟨t, n, rfl, hspaced, _, hvalues⟩
  refine ⟨t, rfl, Spline.ofTable_interpolates hspaced, fun g hg y hplace => ?_⟩
  have hfirst := hg 0 _ (hvalues 0 (Nat.zero_le _))
  rw [Nat.cast_zero, zero_mul, min_eq_left hlength] at hfirst
  change (stateAt r.knots y 0).v - g (stateAt r.knots y 0).p = _
  rw [hplace, hfirst]

/-- Being within a limit up to some tolerance does not change when the limit is
    clipped, unless limit and speed are both out of range. -/
theorem clip_tolerance_iff {v speed tolerance : R} (htolerance : 0 ≤ tolerance)
    (hsmall : tolerance < Endpoint.huge)
    (hrange : |v| ≤ Endpoint.huge ∨ 0 ≤ speed ∧ speed ≤ Endpoint.huge) :
    speed ≤ v + tolerance ↔ speed - (Endpoint.finite v).clip ≤ tolerance := by
  rw [sub_le_iff_le_add']
  rcases hrange with hv | ⟨hnonneg, hspeed⟩
  · rw [Endpoint.clip_finite (neg_le_of_abs_le hv) (le_of_abs_le hv)]
  simp only [Endpoint.clip]
  by_cases hlow : v < -Endpoint.huge
  · -- Both limits are too low for any speed in range.
    rw [if_pos hlow]
    exact ⟨fun h => by linarith, fun h => by linarith⟩
  rw [if_neg hlow]
  by_cases hhigh : Endpoint.huge < v
  · -- Neither limit is too low for a speed in range.
    rw [if_pos hhigh]
    exact ⟨fun _ => by linarith, fun _ => by linarith⟩
  · rw [if_neg hhigh]

namespace Planner

/-- A limit that holds at the start tells whether refining makes sense. -/
theorem startsWithinLimit_iff {h : Horizon R} {limit : SpeedLimit R}
    (hlimit : 2 ≤ limit.points.length) {v : R} (hv : limit.limitAt h.place = .ok v) :
    ∃ within, (startsWithinLimit h limit).result = .ok within ∧
      (within = true ↔ h.speed ≤ v + limitTolerance) := by
  unfold startsWithinLimit
  rw [if_neg (Nat.not_lt.mpr hlimit)]
  by_cases hslow : v + limitTolerance < h.speed
  · refine ⟨false, Outcome.bind_ok_iff.mpr ⟨v, hv, ?_⟩, ?_⟩
    · rw [if_pos hslow]
      rfl
    · exact ⟨fun h => absurd h Bool.false_ne_true, fun h => absurd h (not_le.mpr hslow)⟩
  · refine ⟨true, Outcome.bind_ok_iff.mpr ⟨v, hv, ?_⟩, ?_⟩
    · rw [if_neg hslow]
      rfl
    · exact ⟨fun _ => not_lt.mp hslow, fun _ => rfl⟩

theorem limitTolerance_pos : (0 : R) < limitTolerance := decimal_pos (by omega) 6

theorem limitTolerance_lt_huge : (limitTolerance : R) < Endpoint.huge := by
  have hhuge : (1 : R) ≤ Endpoint.huge := by
    unfold Endpoint.huge
    exact_mod_cast Nat.one_le_pow 30 10 (by omega)
  refine lt_of_lt_of_le ?_ hhuge
  rw [limitTolerance, decimal_eq]
  norm_num

/-- Whether the start is within the limit is known before the fit, and the row of
    the speed limit at the start says the same of whatever the fit is answered
    with. A fit of two samples or more has a problem, and every accepted answer
    that keeps its rows becomes a curve. For every horizon of a planner and
    every refinement with that curve, any function through the table of the
    curve, the smooth one included, leaves the row at most the tolerance exactly
    when the start is within the limit. Only where the limit and the speed are
    both beyond the numbers that solvers read as they are need this not hold. -/
theorem startsWithinLimit_iff_row {d : FitDraft R} {f : FitSettings R} (hf : d.checked = .ok f)
    (hcount : 2 ≤ f.count) {limit : SpeedLimit R} (hlimit : 2 ≤ limit.points.length) :
    ∃ samples v q, limit.Sampled f samples ∧ samples[0]? = some v ∧
      fitProblem samples ⟨v, 0, 0⟩ f = .ok q ∧
      ∀ (solve : ConvexSolver R) k, solve.Fits f.budget q k →
        ∃ c, (fitSpeedLimit solve limit f).result = .ok c ∧
          ∀ (p : Planner R) rough x h, (p.horizon rough x).result = .ok h →
            (|v| ≤ Endpoint.huge ∨ 0 ≤ h.speed ∧ h.speed ≤ Endpoint.huge) →
            ∃ within, (startsWithinLimit h limit).result = .ok within ∧
              ∀ plan curvature r kappa bound,
                (p.refinement h plan curvature c).result = .ok r →
                r.splines = .ok (kappa, bound) →
                ∃ t, bound = .ofTable t ∧ t.Interpolates bound.eval ∧
                  ∀ g, t.Interpolates g → ∀ y,
                    stateAt r.knots y 0 = ⟨h.place, h.speed, h.acceleration⟩ →
                    (within = true ↔ (r.limitRow g 0).value y ≤ limitTolerance) := by
  rcases fitSpeedLimit_eq hlimit f with ⟨samples, v, hsampled, hfirst, hfit⟩
  have hsize : 2 ≤ samples.length := hsampled.length ▸ hcount
  rcases fitProblem_total (⟨v, 0, 0⟩ : Motion R) hsize (FitDraft.checked_sound hf).spacing_pos with
    ⟨q, hq⟩
  refine ⟨samples, v, q, hsampled, hfirst, hq, fun solve k hk => ?_⟩
  rcases fitCurve_start hq hk "speed limit" with ⟨c, hc, hlength, hstart⟩
  refine ⟨c, (hfit solve).trans hc, fun p rough x h hh hrange => ?_⟩
  -- A planner places its start where the first sample is.
  have hplace : h.place = 0 := by
    rcases horizon_made hh with ⟨_, _, _, _, _, rfl⟩
    rfl
  have hv : limit.limitAt h.place = .ok v := by
    have hentry := hsampled.entries 0 v hfirst
    rw [Nat.cast_zero, zero_mul] at hentry
    rw [hplace]
    exact hentry
  rcases startsWithinLimit_iff hlimit hv with ⟨within, hwithin, hiff⟩
  refine ⟨within, hwithin, fun plan curvature r kappa bound hr hsplines => ?_⟩
  rcases RefinementProblem.limitRow_start hsplines (refinement_curves hr).2 hlength with
    ⟨t, hbound, hsmooth, hrow⟩
  refine ⟨t, hbound, hsmooth, fun g hg y hy => ?_⟩
  rw [hrow g hg y (by rw [hy, hplace]), hy, hstart, hiff]
  exact clip_tolerance_iff limitTolerance_pos.le limitTolerance_lt_huge hrange

/-- A fit of two samples, with room for values twice as large as any number that
    solvers read as it is. -/
def wideFit : FitSettings Rat :=
  { FitSettings.speedLimit with samples := 2, xRange := (0, 2 * Endpoint.huge) }

theorem wideFit_checked : ∃ d : FitDraft Rat, d.checked = .ok wideFit := by
  have husual : (FitSettings.speedLimit : FitSettings Rat).Sound := FitSettings.speedLimit_sound
  exact (FitDraft.checked_iff _).mpr { husual with xRange := by decide +kernel }

/-- On the open road the start is within the limit, and the row at the start says
    so of a fit that rises from the limit. -/
theorem startsWithinLimit_iff_row_openRoad : (∃ d : FitDraft Rat, d.checked = .ok wideFit) ∧
    2 ≤ wideFit.count ∧ 2 ≤ openRoad.limit.points.length ∧ ∃ c h r kappa bound,
      (fitSpeedLimit (.knowing ⟨[5, 7], [0, 3], [0, 3]⟩) openRoad.limit wideFit).result = .ok c ∧
      (rider.horizon ⟨[]⟩ openRoad).result = .ok h ∧
      (rider.refinement h ⟨[0, 1], [1, 1], [0, 0]⟩ (.ofStart ⟨0, 0, 0⟩) c).result = .ok r ∧
      r.splines = .ok (kappa, bound) ∧ (startsWithinLimit h openRoad.limit).result = .ok true ∧
      ∀ y, stateAt r.knots y 0 = ⟨h.place, h.speed, h.acceleration⟩ →
        (r.limitRow bound.eval 0).value y ≤ limitTolerance := by
  rcases wideFit_checked with ⟨d, hd⟩
  have hcount : 2 ≤ wideFit.count := by decide
  have hlimit : 2 ≤ openRoad.limit.points.length := by decide
  rcases startsWithinLimit_iff_row hd hcount hlimit with
    ⟨samples, v, q, hsampled, hfirst, hq, hfits⟩
  rcases hsampled.same hfirst (v := 5) (by decide +kernel) with ⟨rfl, rfl⟩
  have hkept : ((fitProblem (List.replicate wideFit.count 5) ⟨5, 0, 0⟩ wideFit).toOption.all
      fun q => decide (q.knots = 2 ∧ q.Feasible ⟨[5, 7], [0, 3], [0, 3]⟩)) = true := by
    decide +kernel
  rw [hq, Except.toOption, Option.all_some, decide_eq_true_eq] at hkept
  have hshaped : KnotProfile.Shaped q.knots ⟨[(5 : Rat), 7], [0, 3], [0, 3]⟩ := by
    rw [hkept.1]
    exact ⟨rfl, rfl, rfl⟩
  rcases hfits _ _ (.knowing _ hshaped hkept.2) with ⟨c, hc, hagrees⟩
  have hmade : ((rider.horizon ⟨[]⟩ openRoad).result.toOption.map fun h =>
      (h.knots, (startsWithinLimit h openRoad.limit).result.toOption)) = some (2, some true) := by
    decide +kernel
  rcases exists_of_toOption_map hmade with ⟨h, hh, hparts⟩
  rcases Prod.mk.inj hparts with ⟨hknots, hcheck⟩
  rcases rider_refinement hh hknots c with ⟨r, kappa, bound, hr, hsplines⟩
  rcases hagrees rider ⟨[]⟩ openRoad h hh (.inl (by decide +kernel)) with ⟨within, hwithin, hrow⟩
  rw [hwithin] at hcheck
  have htrue : within = true := Option.some.inj hcheck
  rcases hrow _ _ r kappa bound hr hsplines with ⟨t, _, hsmooth, hiff⟩
  exact ⟨⟨d, hd⟩, hcount, hlimit, c, h, r, kappa, bound, hc, hh, hr, hsplines, htrue ▸ hwithin,
    fun y hy => (hiff _ hsmooth y hy).mp htrue⟩

/-- The open road with a limit that solvers cannot read, and a speed below it that
    they cannot read either. -/
def enormous : Surroundings Rat :=
  { openRoad with
    speed := 3 / 2 * Endpoint.huge
    limit := ⟨[(0, 2 * Endpoint.huge), (10, 2 * Endpoint.huge)]⟩ }

/-- What solvers read of its rows lets the fit of the enormous limit stay at the
    largest number there is for them. -/
theorem enormous_fit : ∃ samples v q c, enormous.limit.Sampled wideFit samples ∧
    samples[0]? = some v ∧ fitProblem samples ⟨v, 0, 0⟩ wideFit = .ok q ∧
    (ConvexSolver.knowing (.level 2 Endpoint.huge)).Fits wideFit.budget q
      (.level 2 Endpoint.huge) ∧
    (fitSpeedLimit (.knowing (.level 2 Endpoint.huge)) enormous.limit wideFit).result = .ok c ∧
    0 ≤ c.length ∧ c.eval 0 0 = Endpoint.huge := by
  rcases fitSpeedLimit_eq (by decide : 2 ≤ enormous.limit.points.length) wideFit with
    ⟨samples, v, hsampled, hfirst, hfit⟩
  rcases hsampled.same hfirst (v := 2 * Endpoint.huge) (by decide +kernel) with ⟨rfl, rfl⟩
  have hkept : ((fitProblem (List.replicate wideFit.count (2 * Endpoint.huge))
      ⟨2 * Endpoint.huge, 0, 0⟩ wideFit).toOption.map fun q =>
        decide (q.knots = 2 ∧ q.Feasible (.level 2 Endpoint.huge))) = some true := by
    decide +kernel
  rcases exists_of_toOption_map hkept with ⟨q, hq, hparts⟩
  rw [decide_eq_true_eq] at hparts
  have hanswer := ConvexSolver.Fits.knowing wideFit.budget
    (hparts.1.symm ▸ shaped_level 2 (Endpoint.huge : Rat)) hparts.2
  rcases fitCurve_start hq hanswer "speed limit" with ⟨c, hc, hlength, hstart⟩
  exact ⟨_, _, q, c, hsampled, hfirst, hq, hanswer, (hfit _).trans hc, hlength,
    hstart.trans (by decide +kernel)⟩

/-- There the start is within the limit, but the fit starts at the largest number
    that solvers read, and the row says otherwise. -/
theorem startsWithinLimit_misread : (∃ d : FitDraft Rat, d.checked = .ok wideFit) ∧
    2 ≤ wideFit.count ∧ 2 ≤ enormous.limit.points.length ∧
    ∃ samples v q c h r kappa bound t, enormous.limit.Sampled wideFit samples ∧
      samples[0]? = some v ∧ fitProblem samples ⟨v, 0, 0⟩ wideFit = .ok q ∧
      (ConvexSolver.knowing (.level 2 Endpoint.huge)).Fits wideFit.budget q
        (.level 2 Endpoint.huge) ∧
      (fitSpeedLimit (.knowing (.level 2 Endpoint.huge)) enormous.limit wideFit).result = .ok c ∧
      (rider.horizon ⟨[]⟩ enormous).result = .ok h ∧
      (rider.refinement h ⟨[0, 1], [1, 1], [0, 0]⟩ (.ofStart ⟨0, 0, 0⟩) c).result = .ok r ∧
      r.splines = .ok (kappa, bound) ∧ bound = .ofTable t ∧ t.Interpolates bound.eval ∧
      (startsWithinLimit h enormous.limit).result = .ok true ∧
      ∀ g, t.Interpolates g → ∀ y, stateAt r.knots y 0 = ⟨h.place, h.speed, h.acceleration⟩ →
        ¬ (r.limitRow g 0).value y ≤ limitTolerance := by
  rcases enormous_fit with
    ⟨samples, v, q, c, hsampled, hfirst, hq, hanswer, hc, hlength, hstart⟩
  have hmade : ((rider.horizon ⟨[]⟩ enormous).result.toOption.map fun h =>
      (h.knots, h.place, h.speed)) = some (2, 0, 3 / 2 * Endpoint.huge) := by decide +kernel
  rcases exists_of_toOption_map hmade with ⟨h, hh, hvalues⟩
  simp only [Prod.mk.injEq] at hvalues
  rcases hvalues with ⟨hknots, hplace, hspeed⟩
  rcases rider_refinement hh hknots c with ⟨r, kappa, bound, hr, hsplines⟩
  rcases RefinementProblem.limitRow_start hsplines (refinement_curves hr).2 hlength with
    ⟨t, hbound, hsmooth, hrow⟩
  have hlimit : 2 ≤ enormous.limit.points.length := by decide
  have hv : enormous.limit.limitAt h.place = .ok (2 * Endpoint.huge) := by
    rw [hplace]
    rfl
  rcases startsWithinLimit_iff hlimit hv with ⟨within, hwithin, hiff⟩
  have htrue : within = true := hiff.mpr (by rw [hspeed]; decide +kernel)
  refine ⟨wideFit_checked, by decide, hlimit, samples, v, q, c, h, r, kappa, bound, t, hsampled,
    hfirst, hq, hanswer, hc, hh, hr, hsplines, hbound, hsmooth, htrue ▸ hwithin,
    fun g hg y hy => ?_⟩
  -- Half of the largest number is left, which no tolerance covers.
  rw [hrow g hg y (by rw [hy, hplace]), hy, hstart, hspeed]
  change ¬ 3 / 2 * Endpoint.huge - Endpoint.huge ≤ (limitTolerance : Rat)
  decide +kernel

end Planner

end JerkPlan
