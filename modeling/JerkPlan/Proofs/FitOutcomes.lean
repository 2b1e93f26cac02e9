import JerkPlan.Proofs.CheckedSettings
import JerkPlan.Proofs.CurveKnots
import JerkPlan.Proofs.CycleSteps
import JerkPlan.Proofs.FailureKinds
import JerkPlan.Proofs.KnotCost
import JerkPlan.Proofs.OrderedBounds
import JerkPlan.Proofs.Sampling

/-!
# How fits end

A fit ends with a curve, or in a way that a cycle recovers from.

Nothing but the answer of the solver decides which. In exact arithmetic and
with sound settings every step around it succeeds: there are samples, the
problem made of them has a program, no lower bound is above its upper bound, no
weight is negative, and the curve can be rebuilt from any accepted answer. So
the solver has no reason to refuse, which is all that is asked of it besides
answers of the right size. A fit of fewer than two samples does not get that
far, and is recovered from like one without an accepted answer.

## Main definitions

* `KnotProblem.Weighted`: No weight is negative.
* `ConvexSolver.Dependable`: A solver that refuses nothing without a reason.
* `ConvexSolver.Sized`: Answers with an entry for each knot.
* `FitFor`: What a problem takes from the settings of its fit.

## Theorems

* `fitProblem_for`, `fitProblem_start`, `fitProblem_total`: The problem of a fit.
* `FitFor.ordered`, `FitFor.weighted`: It gives no reason to refuse it.
* `KnotProblem.optimize_total`: A dependable solver answers.
* `fitCurve_recovered`, `fitCurvature_recovered`, `fitSpeedLimit_recovered`:
  Only failures that are recovered from.
-/

namespace JerkPlan

variable {R : Type} [ExactScalar R]

/-- No weight of a problem is negative. -/
structure KnotProblem.Weighted (q : KnotProblem R) : Prop where
  values : 0 ≤ q.pWeight
  slopes : 0 ≤ q.vWeight
  bends : 0 ≤ q.aWeight
  changes : 0 ≤ q.jerkWeight
  reference : ∀ r, q.reference = some r → ∀ w ∈ r.1, 0 ≤ w
  final : ∀ r, q.finalReference = some r → 0 ≤ r.1.p ∧ 0 ≤ r.1.v ∧ 0 ≤ r.1.a
  slope : ∀ r, q.slopeReference = some r → 0 ≤ r.1

/-- A solver that answers whenever it has some iterations, no bounds cross and
    no weight is negative, and whose accepted answers have an entry for each
    knot. -/
structure ConvexSolver.Dependable (solve : ConvexSolver R) : Prop where
  answers : ∀ budget q, 0 < budget → q.constraints.Ordered → q.Weighted →
    ∃ answer, solve budget q = .ok answer
  shaped : ∀ budget q answer, solve budget q = .ok answer → answer.status.accepted = true →
    answer.profile.Shaped q.knots

/-- Accepted answers have an entry for each knot. -/
def ConvexSolver.Sized (solve : ConvexSolver R) : Prop :=
  ∀ budget q answer, solve budget q = .ok answer → answer.status.accepted = true →
    answer.profile.Shaped q.knots

/-- What a problem takes from the samples and the settings of its fit. -/
structure FitFor (samples : List R) (f : FitSettings R) (q : KnotProblem R) : Prop where
  kind : q.kind = .fit
  knots : q.knots = samples.length
  two_le_knots : 2 ≤ q.knots
  step : q.step = f.spacing
  step_pos : 0 < q.step
  pBounds : q.pBounds = List.replicate q.knots (KnotProblem.finitePair f.xRange)
  vBounds : q.vBounds = List.replicate q.knots (KnotProblem.finitePair f.dxRange)
  aBounds : q.aBounds = List.replicate q.knots (KnotProblem.finitePair f.ddxRange)
  jerkBounds : q.jerkBounds = KnotProblem.finitePair f.dddxRange
  weights : [q.pWeight, q.vWeight, q.aWeight, q.jerkWeight] =
    [f.xWeight, f.dxWeight, f.ddxWeight, f.dddxWeight]
  reference : q.reference = some (List.replicate q.knots f.referenceWeight, samples)
  final : q.finalReference = none
  slope : q.slopeReference = none

/-- The problem of a fit takes its samples, ranges and weights. -/
theorem fitProblem_for {samples : List R} {start : Motion R} {f : FitSettings R}
    {q : KnotProblem R} (hq : fitProblem samples start f = .ok q) : FitFor samples f q := by
  rcases bind_eq_ok_iff.mp hq with ⟨q₀, hmake, hq⟩
  -- A problem that was made has two knots and a step that leads forward.
  rcases KnotProblem.make_checked hmake with ⟨hknots, hstep⟩
  rw [KnotProblem.make_eq hknots hstep, Except.ok.injEq] at hmake
  subst hmake
  rcases ite_error_ok hq with ⟨_, hq⟩
  rw [← Except.ok.inj hq]
  exact ⟨rfl, Int.toNat_natCast _, by simp only; omega, rfl, hstep, rfl, rfl, rfl, rfl, rfl, rfl,
    rfl, rfl⟩

/-- Two samples and a spacing make the problem of a fit. -/
theorem fitProblem_total {samples : List R} (start : Motion R) {f : FitSettings R}
    (hsamples : 2 ≤ samples.length) (hspacing : 0 < f.spacing) :
    ∃ q, fitProblem samples start f = .ok q := by
  have hlength : (2 : Int) ≤ samples.length := by omega
  unfold fitProblem
  rw [KnotProblem.make_eq hlength hspacing]
  -- There is a target for each knot, so the reference is taken.
  exact ⟨_, if_neg (not_not.mpr (Int.toNat_natCast _).symm)⟩

/-- A fit starts in the given state. -/
theorem fitProblem_start {samples : List R} {start : Motion R} {f : FitSettings R}
    {q : KnotProblem R} (hq : fitProblem samples start f = .ok q) :
    q.start = [start.p, start.v, start.a] := by
  rcases bind_eq_ok_iff.mp hq with ⟨q₀, hmake, hq⟩
  rcases KnotProblem.make_checked hmake with ⟨hknots, hstep⟩
  rw [KnotProblem.make_eq hknots hstep, Except.ok.injEq] at hmake
  subst hmake
  rcases KnotProblem.withReference_eq hq with ⟨r, rfl⟩
  rfl

theorem FitFor.wellFormed {samples : List R} {f : FitSettings R} {q : KnotProblem R}
    (hq : FitFor samples f q) (hstart : q.start.length = 3) : q.WellFormed := by
  refine ⟨hq.two_le_knots, hq.step_pos, hstart, ?_, ?_, ?_⟩
  · rw [hq.pBounds, List.length_replicate]
  · rw [hq.vBounds, List.length_replicate]
  · rw [hq.aBounds, List.length_replicate]

/-- A fit has an objective. -/
theorem FitFor.kind_ne {samples : List R} {f : FitSettings R} {q : KnotProblem R}
    (hq : FitFor samples f q) : q.kind ≠ .bare := by
  rw [hq.kind]
  exact ProblemKind.noConfusion

/-- No bound of a fit with sound settings is above its counterpart. -/
theorem FitFor.ordered {samples : List R} {f : FitSettings R} {q : KnotProblem R}
    (hq : FitFor samples f q) (hf : f.Sound) : q.constraints.Ordered := by
  -- Every knot has the same range, so its entry in the settings decides.
  refine KnotProblem.OrderedBounds.constraints ⟨?_, ?_, ?_, ?_⟩ hq.step_pos
  · rw [hq.pBounds]
    exact List.forall_mem_replicate.mpr (.inr hf.xRange)
  · rw [hq.vBounds]
    exact List.forall_mem_replicate.mpr (.inr hf.dxRange)
  · rw [hq.aBounds]
    exact List.forall_mem_replicate.mpr (.inr hf.ddxRange)
  · rw [hq.jerkBounds]
    exact hf.dddxRange

/-- No weight of a fit is negative when those of its settings are not. -/
theorem FitFor.weighted {samples : List R} {f : FitSettings R} {q : KnotProblem R}
    (hq : FitFor samples f q)
    (hsigns : ∀ w ∈ [f.xWeight, f.dxWeight, f.ddxWeight, f.dddxWeight, f.referenceWeight], 0 ≤ w) :
    q.Weighted := by
  have hweights := hq.weights
  simp only [List.forall_mem_cons] at hsigns
  simp only [List.cons.injEq, and_true] at hweights
  rcases hsigns with ⟨hx, hdx, hddx, hdddx, href, _⟩
  rcases hweights with ⟨hp, hv, ha, hj⟩
  refine ⟨hp ▸ hx, hv ▸ hdx, ha ▸ hddx, hj ▸ hdddx, fun r hr w hw => ?_, fun r hr => ?_,
    fun r hr => ?_⟩
  · rw [hq.reference, Option.some.injEq] at hr
    rw [← hr] at hw
    rw [List.eq_of_mem_replicate hw]
    exact href
  -- A fit has no target for its end or its slopes.
  · exact absurd (hq.final.symm.trans hr) (by simp only [reduceCtorEq, not_false_eq_true])
  · exact absurd (hq.slope.symm.trans hr) (by simp only [reduceCtorEq, not_false_eq_true])

/-- A dependable solver answers a problem that has a program, ordered bounds and
    no negative weight. -/
theorem KnotProblem.optimize_total {solve : ConvexSolver R} (hsolve : solve.Dependable)
    {budget : Int} (hbudget : 0 < budget) {q : KnotProblem R} (hkind : q.kind ≠ .bare)
    (hstep : 0 < q.step) (hordered : q.constraints.Ordered) (hweighted : q.Weighted) :
    ∃ answer, (q.optimize solve budget).result = .ok answer := by
  rcases hsolve.answers budget q hbudget hordered hweighted with ⟨answer, hanswer⟩
  refine ⟨answer, Outcome.bind_ok_iff.mpr ⟨_, program_eq hkind hstep, ?_⟩⟩
  simp only [hanswer]
  -- Whether the answer is accepted shows in the notices only.
  split
  · rfl
  · rfl

open Failure

variable {solve : ConvexSolver R} {f : FitSettings R}

/-- A fit with sound settings ends with a curve or is recovered from. -/
theorem fitCurve_recovered (hsolve : solve.Dependable) (hf : f.Sound) (samples : List R)
    (start : Motion R) (name : String) :
    FailsOnly Recovered (fitCurve solve samples start f name).result := by
  unfold fitCurve
  by_cases hshort : samples.length < 2
  · rw [if_pos hshort]
    exact FailsOnly.error_iff.mpr rfl
  rw [if_neg hshort]
  have htotal := fitProblem_total start (by omega : 2 ≤ samples.length) hf.spacing_pos
  refine FailsOnly.bind_outcome (.of_total htotal) fun q hq => ?_
  -- The solver has no reason to refuse this problem.
  have hfor := fitProblem_for hq
  have hanswers := KnotProblem.optimize_total hsolve hf.budget_pos hfor.kind_ne hfor.step_pos
    (hfor.ordered hf) (hfor.weighted hf.weights)
  refine FailsOnly.bind_outcome (.of_total hanswers) fun answer hanswer => ?_
  by_cases haccepted : answer.status.accepted = true
  · -- An accepted answer has a state at every knot to rebuild the curve from.
    rw [if_pos haccepted]
    have hshaped := hsolve.shaped _ _ _ (KnotProblem.optimize_ok hanswer) haccepted
    have hknots := hfor.two_le_knots
    rcases rebuild_even hf.spacing_pos (by omega : 0 < q.knots) hshaped with ⟨curve, hcurve, _⟩
    exact .of_total ⟨curve, hcurve⟩
  · rw [if_neg haccepted]
    exact FailsOnly.error_iff.mpr rfl

theorem fitCurvature_recovered (hsolve : solve.Dependable) (hf : f.Sound) {path : Path R}
    (hpath : path.points ≠ []) : FailsOnly Recovered (fitCurvature solve path f).result := by
  rcases sampleCurvature_total hpath hf.spacing_pos with ⟨first, _, samples, hfirst, _, hsamples, _⟩
  exact FailsOnly.bind_outcome (.of_total ⟨samples, hsamples⟩) fun _ _ =>
    FailsOnly.bind_outcome (.of_total ⟨first, hfirst⟩) fun _ _ => fitCurve_recovered hsolve hf _ _ _

/-- A limit of two points says something about every distance. -/
theorem SpeedLimit.limitAt_total {limit : SpeedLimit R} (hlimit : 2 ≤ limit.points.length)
    (s : R) : ∃ v, limit.limitAt s = .ok v := by
  unfold limitAt
  rw [if_neg (by omega)]
  -- Where no index leads to a point, the last one decides.
  have hlast : limit.points.getLast? = some (limit.points.getLast
      (List.ne_nil_of_length_pos (by omega))) := List.getLast?_eq_some_getLast _
  rw [hlast]
  split
  · exact ⟨_, rfl⟩
  · exact ⟨_, rfl⟩
  · next hnone => exact absurd hnone (by simp only [reduceCtorEq, not_false_eq_true])

theorem fitSpeedLimit_recovered (hsolve : solve.Dependable) (hf : f.Sound) {limit : SpeedLimit R}
    (hlimit : 2 ≤ limit.points.length) :
    FailsOnly Recovered (fitSpeedLimit solve limit f).result := by
  unfold fitSpeedLimit
  simp only
  rw [if_neg (by omega : ¬ limit.points.length < 2)]
  rcases mapM_total (List.range (if 0 < f.samples then f.samples.toNat else 100))
    fun i _ => limit.limitAt_total hlimit ((i : R) * f.spacing) with ⟨samples, hsamples, hlength⟩
  refine FailsOnly.bind_outcome (.of_total ⟨samples, hsamples⟩) fun samples' hsamples' => ?_
  rw [Outcome.result_of, hsamples, Except.ok.injEq] at hsamples'
  rw [← hsamples']
  cases samples with
  | nil =>
      -- At least one sample is taken, whatever the settings ask for.
      rw [List.length_range, List.length_nil] at hlength
      split at hlength <;> omega
  | cons v vs => exact fitCurve_recovered hsolve hf _ _ _

end JerkPlan
