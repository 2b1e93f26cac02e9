import JerkPlan.Proofs.FitOutcomes
import JerkPlan.Proofs.PlanLimits
import JerkPlan.Proofs.Publishing
import JerkPlan.Proofs.TabulatedCurves

/-!
# How refinements end

A refinement ends with a profile, or in a way that a cycle recovers from.

What could go wrong besides the solver are sizes: the corridor, the warm start
and the aim must have an entry for each knot, the curves must be there before
there is a program, and a starting point needs a ceiling at each knot. A
horizon whose corridor fits and a profile of its size leave nothing of that to
chance. The problem is put together in steps, and `RefinementProblem.Agree`
keeps what later steps rely on.

With a program and a starting point only the solver is left. It may break down,
give up or report anything at all, since each of these is a failure that the
cycle recovers from.

## Main definitions

* `Horizon.Fits`: A corridor has an interval for each of at least two knots.
* `RefinementProblem.Agree`: Two problems with the same limits and curves.

## Theorems

* `Planner.refinement_total`: The refinement problem can be put together.
* `RefinementProblem.splines_total`, `RefinementProblem.program_total`,
  `RefinementProblem.startingPoint_total`: It has smooth functions, a program and
  a starting point.
* `refine_recovered`: Only failures that are recovered from.
* `Planner.refinedProfile_recovered`: The same with both fits.
-/

namespace JerkPlan

variable {R : Type}

/-- A horizon of two knots or more, with a hard interval for each of them, and
    a soft one for each or for none. -/
structure Horizon.Fits (h : Horizon R) : Prop where
  two_le_knots : 2 ≤ h.knots
  hard : h.corridor.hard.length = h.knots.toNat
  soft : h.corridor.soft = [] ∨ h.corridor.soft.length = h.knots.toNat

namespace RefinementProblem

/-- The second problem has the horizon, hard corridor and curves of the first. -/
structure Agree (q r : RefinementProblem R) : Prop where
  horizon : r.horizon = q.horizon
  hard : r.hard = q.hard
  curvature : r.curvature = q.curvature
  limit : r.limit = q.limit

/-- Targets for all knots are taken. -/
theorem withReference_total {q : RefinementProblem R} {places : List R}
    (hplaces : (places.length : Int) = q.horizon.knots) :
    ∃ r, q.withReference places = .ok r ∧ Agree q r :=
  ⟨_, if_neg (not_not.mpr hplaces), rfl, rfl, rfl, rfl⟩

end RefinementProblem

namespace Planner

variable {p : Planner R} {h : Horizon R} {q : RefinementProblem R} {plan : KnotProfile R}

theorem softened_total (hh : h.Fits) (hq : q.horizon = h) :
    ∃ r, (p.softened h q).result = .ok r ∧ q.Agree r := by
  have htwo := hh.two_le_knots
  unfold softened
  rcases hh.soft with hempty | hlength
  · rw [hempty]
    exact ⟨q, rfl, rfl, rfl, rfl, rfl⟩
  · -- Soft intervals are taken or left out, and are enough in either case.
    have hknots : (h.corridor.soft.length : Int) = q.horizon.knots := by
      rw [hq]
      omega
    have hsoft : q.withSoft h.corridor.soft = .ok { q with soft := h.corridor.soft } :=
      if_neg (not_not.mpr hknots)
    split
    · exact ⟨q, rfl, rfl, rfl, rfl, rfl⟩
    · rw [hsoft]
      exact ⟨_, rfl, rfl, rfl, rfl, rfl⟩

/-- A profile of the horizon's size is a warm start. -/
theorem warmed_total (hh : h.Fits) (hq : q.horizon = h) (hk : plan.Shaped h.knots.toNat) :
    ∃ r, (p.warmed plan q).result = .ok r ∧ q.Agree r := by
  have htwo := hh.two_le_knots
  have hvalid := hk.valid (by omega)
  have hsize : (plan.size : Int) = q.horizon.knots := by
    rw [hq, KnotProfile.size, hk.values]
    omega
  unfold warmed RefinementProblem.withWarmStart
  simp only [hvalid, hsize, Bool.not_true, bne_self_eq_false, Bool.or_self, Bool.false_eq_true,
    if_false]
  split
  · exact ⟨_, rfl, rfl, rfl, rfl, rfl⟩
  · exact ⟨_, rfl, rfl, rfl, rfl, rfl⟩

/-- Either aim has a place for each knot. -/
theorem aimed_total (hh : h.Fits) (hq : q.horizon = h) (hk : plan.Shaped h.knots.toNat) :
    ∃ r, p.aimed h plan q = .ok r ∧ q.Agree r := by
  have htwo := hh.two_le_knots
  unfold aimed
  split
  · refine RefinementProblem.withReference_total ?_
    rw [hq, hk.values]
    omega
  · refine RefinementProblem.withReference_total ?_
    rw [hq, List.length_replicate]
    omega

end Planner

/-- The refinement problem of a fitting horizon can be put together, with any
    curves, and has both of them. -/
theorem Planner.refinement_total [Scalar R] {p : Planner R} {h : Horizon R} {plan : KnotProfile R}
    (hh : h.Fits) (hk : plan.Shaped h.knots.toNat) (curvature limit : JerkCurve R) :
    ∃ r, (p.refinement h plan curvature limit).result = .ok r ∧ r.curvature = some curvature ∧
      r.limit = some limit := by
  have htwo := hh.two_le_knots
  have hknots : (h.corridor.hard.length : Int) = h.knots := by
    rw [hh.hard]
    omega
  let q : RefinementProblem R := { RefinementProblem.ofHorizon h with hard := h.corridor.hard }
  have hhard : (RefinementProblem.ofHorizon h).withHard h.corridor.hard = .ok q :=
    if_neg (not_not.mpr hknots)
  -- Each step keeps the horizon that the next one measures sizes by.
  rcases p.softened_total hh (rfl : q.horizon = h) with ⟨q₁, hsoft, hq₁⟩
  rcases p.warmed_total (q := { q₁ with curvature := some curvature, limit := some limit }) hh
    hq₁.horizon hk with ⟨q₂, hwarm, hq₂⟩
  rcases p.aimed_total hh (hq₂.horizon.trans hq₁.horizon) hk with ⟨q₃, haim, hq₃⟩
  refine ⟨_, Outcome.bind_ok_iff.mpr ⟨q, hhard, Outcome.bind_ok_iff.mpr ⟨q₁, hsoft,
    Outcome.bind_ok_iff.mpr ⟨q₂, hwarm, Outcome.bind_ok_iff.mpr ⟨q₃, haim, rfl⟩⟩⟩⟩, ?_, ?_⟩
  · exact hq₃.curvature.trans hq₂.curvature
  · exact hq₃.limit.trans hq₂.limit

variable [ExactScalar R]

/-- There is a smooth function through any curve at any spacing. -/
theorem Spline.ofCurve_total (curve : JerkCurve R) (reach : R) {spacing : R}
    (hspacing : spacing ≠ 0) : ∃ f, Spline.ofCurve curve reach spacing = .ok f := by
  rcases CurveTable.ofCurve_eq curve reach hspacing with ⟨_, _, _, ht⟩
  exact ⟨_, ofCurve_of_table ht⟩

namespace RefinementProblem

variable {r : RefinementProblem R}

/-- The curves of a problem with a corridor are made smooth functions. -/
theorem splines_total {curvature limit : JerkCurve R} (hcurvature : r.curvature = some curvature)
    (hlimit : r.limit = some limit) (hhard : r.hard ≠ []) :
    ∃ kappa bound, r.splines = .ok (kappa, bound) := by
  have hspacing : (CurveTable.usualSpacing : R) ≠ 0 := (decimal_pos (by omega) 1).ne'
  -- How far the curves are looked at is read off the corridor.
  have hreach : ∃ reach, r.reach = .ok reach := by
    unfold reach
    split
    · next hempty => exact absurd hempty hhard
    · exact ⟨_, rfl⟩
  rcases hreach with ⟨reach, hreach⟩
  rcases Spline.ofCurve_total curvature reach hspacing with ⟨kappa, hkappa⟩
  rcases Spline.ofCurve_total limit reach hspacing with ⟨bound, hbound⟩
  refine ⟨kappa, bound, ?_⟩
  unfold splines
  rw [hcurvature, hlimit]
  exact bind_eq_ok_iff.mpr ⟨reach, hreach, bind_eq_ok_iff.mpr ⟨kappa, hkappa,
    bind_eq_ok_iff.mpr ⟨bound, hbound, rfl⟩⟩⟩

/-- A problem with curves and a corridor has a program. -/
theorem program_total {curvature limit : JerkCurve R} (hcurvature : r.curvature = some curvature)
    (hlimit : r.limit = some limit) (hhard : r.hard ≠ []) : ∃ program, r.program = .ok program := by
  rcases splines_total hcurvature hlimit hhard with ⟨kappa, bound, hsplines⟩
  exact ⟨_, bind_eq_ok_iff.mpr ⟨_, hsplines, rfl⟩⟩

/-- A knot with an interval has a place below its ceiling to start from. -/
theorem coldPlace_total {i : Nat} (hi : i < r.hard.length) : ∃ place,
    (match r.hard[i]? with
      | some b => .ok (lesser (r.horizon.place + r.coldSpeed * (i : R) * r.horizon.step) b.2)
      | none => .error .missingEntry : Except (Failure R) R) = .ok place := by
  rw [List.getElem?_eq_getElem hi]
  exact ⟨_, rfl⟩

/-- A corridor with an interval for each knot has a ceiling to start from at
    each of them. -/
theorem startingPoint_total (hhard : r.hard.length = r.knots) :
    ∃ places, r.startingPoint = .ok places := by
  have hceilings (i : Nat) (hi : i ∈ List.range r.knots) := coldPlace_total (r := r) (i := i)
    (by rw [hhard]; exact List.mem_range.mp hi)
  have hplaces : ∃ places, r.coldPlaces = .ok places := by
    rcases mapM_total _ hceilings with ⟨places, hplaces, _⟩
    exact ⟨_, bind_eq_ok_iff.mpr ⟨places, hplaces, rfl⟩⟩
  rcases hplaces with ⟨places, hplaces⟩
  -- A warm start stands in for these places.
  unfold startingPoint
  simp only [hplaces]
  split
  · exact ⟨_, rfl⟩
  · exact ⟨_, rfl⟩

end RefinementProblem

open Failure

/-- Asking for a refined profile fails only in ways that are recovered from. -/
theorem refine_recovered (nonlinear : RefinementSolver R) (budget : Int) {r : RefinementProblem R}
    {curvature limit : JerkCurve R} (hcurvature : r.curvature = some curvature)
    (hlimit : r.limit = some limit) (hhard : r.hard ≠ []) (hlength : r.hard.length = r.knots) :
    FailsOnly Recovered (refine nonlinear budget r).result := by
  have hprogram := RefinementProblem.program_total hcurvature hlimit hhard
  have hstart := RefinementProblem.startingPoint_total hlength
  refine FailsOnly.bind_outcome (.of_total hprogram) fun _ _ =>
    FailsOnly.bind_outcome (.of_total hstart) fun _ _ => ?_
  -- Whatever the solver reports is taken or recovered from.
  split
  · exact FailsOnly.error_iff.mpr rfl
  · split
    · exact FailsOnly.ok _
    · split
      · exact FailsOnly.error_iff.mpr rfl
      · exact FailsOnly.error_iff.mpr rfl

/-- Both fits and the refinement fail only in ways that are recovered from. -/
theorem Planner.refinedProfile_recovered {p : Planner R} (hp : p.Checked) {fit : ConvexSolver R}
    (hfit : fit.Dependable) (nonlinear : RefinementSolver R)
    (convex : Horizon R → SpeedSeries R → Outcome R (KnotProfile R)) {path : Path R}
    (hpath : path.points ≠ []) {h : Horizon R} (hh : h.Fits) {limit : SpeedLimit R}
    (hlimit : 2 ≤ limit.points.length) {plan : KnotProfile R} (hk : plan.Shaped h.knots.toNat)
    (recording : Option (Recording R)) :
    FailsOnly Recovered (p.refinedProfile { p.stages fit nonlinear with convex := convex } path h
      limit plan recording).result := by
  rcases hp.curvatureFit with ⟨_, hcurvature⟩
  rcases hp.limitFit with ⟨_, hbound⟩
  have htwo := hh.two_le_knots
  refine FailsOnly.andThen
    (fitCurvature_recovered hfit (FitDraft.checked_sound hcurvature) hpath) fun kappa _ => ?_
  refine FailsOnly.andThen
    (fitSpeedLimit_recovered hfit (FitDraft.checked_sound hbound) hlimit) fun bound _ => ?_
  rcases p.refinement_total hh hk kappa bound with ⟨r, hr, hcurve, hspeeds⟩
  refine FailsOnly.andThen (.of_total ⟨r, hr⟩) fun r' hr' => ?_
  have hsame : r' = r := Except.ok.inj (hr'.symm.trans hr)
  have hfor := refinement_for hr
  rw [hsame]
  refine refine_recovered nonlinear _ hcurve hspeeds ?_ hfor.length_hard
  rw [hfor.hard]
  exact List.ne_nil_of_length_pos (by rw [hh.hard]; omega)

end JerkPlan
