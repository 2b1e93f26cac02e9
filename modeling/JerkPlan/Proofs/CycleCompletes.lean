import JerkPlan.Proofs.CycleLimits
import JerkPlan.Proofs.CorridorKnots
import JerkPlan.Proofs.HeldProfiles
import JerkPlan.Proofs.RefinementOutcomes
import JerkPlan.Proofs.Calls

/-!
# Cycles that complete

Once a cycle has its convex plan, it ends well.

The refinement is an enhancement and nothing else. Whatever the fits and the
refinement answer, the cycle goes on with a profile of the convex plan's size,
publishes its first knot at least, and continues it until its readers have
enough. The convex plan may be any profile with an entry for each knot: speeds
of either sign are published up to the first that would lead backwards.

Each part of a cycle has its own reason to succeed. The horizon's corridor has
the sizes a refinement asks for, the step is positive, the speed limit has two
points or there would be no horizon, and the unit of publishing leads forward.

## Theorems

* `Planner.horizon_fits`: Every horizon has a corridor of its size.
* `Planner.secondPlan_total`, `Planner.improve_total`,
  `Planner.finalPlan_total`: There is a profile to publish.
* `Planner.fillBuffer_total`: It can be published and continued.
* `Planner.cycle_completes`: A cycle with a convex plan ends well.
-/

namespace JerkPlan

open Failure

theorem Planner.horizon_fits {R : Type} [Scalar R] {p : Planner R} {h : Horizon R}
    {rough : SpeedSeries R} {x : Surroundings R}
    (hh : (p.horizon rough x).result = .ok h) (hknots : 2 ≤ h.knots) : h.Fits := by
  rcases Corridor.length_compile (horizon_parts hh).2.2 with ⟨hhard, hsoft⟩
  exact ⟨hknots, hhard, hsoft⟩

variable {R : Type} [ExactScalar R]

namespace Planner

variable {p : Planner R} {h : Horizon R}

/-- A limit of two points tells whether refining makes sense. -/
theorem startsWithinLimit_total (h : Horizon R) {limit : SpeedLimit R}
    (hlimit : 2 ≤ limit.points.length) :
    ∃ within, (startsWithinLimit h limit).result = .ok within := by
  rcases limit.limitAt_total hlimit h.place with ⟨v, hv⟩
  unfold startsWithinLimit
  rw [if_neg (by omega : ¬ limit.points.length < 2)]
  by_cases hslow : v + limitTolerance < h.speed
  · refine ⟨false, Outcome.bind_ok_iff.mpr ⟨v, hv, ?_⟩⟩
    rw [if_pos hslow]
    rfl
  · refine ⟨true, Outcome.bind_ok_iff.mpr ⟨v, hv, ?_⟩⟩
    rw [if_neg hslow]
    rfl

/-- The profile of a cycle has the size of its convex plan: an upgrade is only
    taken if it is valid and has that size. -/
theorem finalPlan_shaped {s : Stages R} {path : Path R} {limit : SpeedLimit R} {k : KnotProfile R}
    {recording : Option (Recording R)} {stage : CycleStage} {c : Checkpoint R} {n : Nat}
    (hc : (p.finalPlan s path h limit k recording).result = .ok (stage, c)) (hk : k.Shaped n) :
    c.profile.Shaped n := by
  rcases finalPlan_cases hc with ⟨_, hsame⟩ | ⟨_, hvalid, hsize, _⟩
  · rw [hsame]
    exact hk
  · have hshaped := KnotProfile.shaped_of_valid hvalid
    rw [hsize, KnotProfile.size, hk.values] at hshaped
    exact hshaped

section Stages

variable (hp : p.Checked) {fit : ConvexSolver R} (hfit : fit.Dependable)
  (nonlinear : RefinementSolver R)
  (convex : Horizon R → SpeedSeries R → Outcome R (KnotProfile R)) {path : Path R}
  (hpath : path.points ≠ []) (hh : h.Fits) {limit : SpeedLimit R}
  (hlimit : 2 ≤ limit.points.length)

include hp hfit hpath hh hlimit

/-- A refinement that is tried ends with a checkpoint. -/
theorem secondPlan_total {c : Checkpoint R} (hc : c.profile.Shaped h.knots.toNat)
    (recording : Option (Recording R)) :
    ∃ d, (p.secondPlan { p.stages fit nonlinear with convex := convex } path h limit c
      recording).result = .ok d := by
  have hrecovered := p.refinedProfile_recovered hp hfit nonlinear convex hpath hh hlimit hc recording
  -- A failure that is recovered from leaves the checkpoint as it was.
  unfold secondPlan
  rcases hx : (p.refinedProfile { p.stages fit nonlinear with convex := convex } path h limit
    c.profile recording).result with e | k
  · rw [hx, FailsOnly.error_iff] at hrecovered
    cases e with
    | stage cause =>
        have hcause : cause.recoverable = true := hrecovered
        simp only [hx, hcause, if_true]
        exact ⟨_, rfl⟩
    | _ => exact absurd hrecovered Bool.false_ne_true
  · simp only [hx]
    exact ⟨_, rfl⟩

/-- The refinement is tried or not, and nothing can go wrong in either case. -/
theorem improve_total {c : Checkpoint R} (hc : c.profile.Shaped h.knots.toNat)
    (recording : Option (Recording R)) :
    ∃ a, (p.improve { p.stages fit nonlinear with convex := convex } path h limit c
      recording).result = .ok a := by
  rcases startsWithinLimit_total h hlimit with ⟨within, hwithin⟩
  unfold improve
  split
  · exact ⟨_, rfl⟩
  rw [CyclePart.result_andThen hwithin]
  split
  · rcases secondPlan_total hp hfit nonlinear convex hpath hh hlimit hc _ with ⟨d, hd⟩
    rw [CyclePart.result_andThen hd]
    exact ⟨_, rfl⟩
  · exact ⟨_, rfl⟩

/-- What follows a convex plan ends with a profile of its size. -/
theorem finalPlan_total (hstep : 0 < h.step) {k : KnotProfile R} (hk : k.Shaped h.knots.toNat)
    (recording : Option (Recording R)) :
    ∃ stage c, (p.finalPlan { p.stages fit nonlinear with convex := convex } path h limit k
      recording).result = .ok (stage, c) ∧ c.profile.Shaped h.knots.toNat := by
  have htotal : ∃ a, (p.finalPlan { p.stages fit nonlinear with convex := convex } path h limit k
      recording).result = .ok a := by
    rcases finalPlan_eq (same_eq_false hstep.ne') k with ⟨samples, hrecorded⟩
    rw [hrecorded]
    exact improve_total hp hfit nonlinear convex hpath hh hlimit hk _
  rcases htotal with ⟨⟨stage, c⟩, hfinal⟩
  exact ⟨stage, c, hfinal, finalPlan_shaped hfinal hk⟩

end Stages

/-- Any profile with knots is published, and continued for long enough. -/
theorem fillBuffer_total (hunit : 0 < p.comfort.publishUnit) (hstep : 0 < h.step)
    {c : Checkpoint R} {n : Nat} (hn : 0 < n) (hc : c.profile.Shaped n) :
    ∃ d, p.fillBuffer h c = (d, none) ∧ d.samples ≠ [] ∧
      ∀ last, d.samples.getLast? = some last →
        p.comfort.publishTime ≤ last.t + p.comfort.publishUnit := by
  rcases SpeedSeries.publish_fill hstep hunit hn hc p.comfort.publishTime with
    ⟨j, l, e, _, hpublish, hfill, _, _, _, hlate⟩
  have hbuffer : p.fillBuffer h c = (.continued h.step p.comfort.publishUnit
      (stateAt n c.profile.point) j l, none) := by
    simp only [fillBuffer, hpublish, hfill]
  refine ⟨_, hbuffer, ?_, fun last hlast => ?_⟩
  · -- The first knot is there, and continuing takes nothing away.
    refine List.ne_nil_of_length_pos ?_
    rw [SpeedSeries.length_continued]
    omega
  · exact SpeedSeries.le_last_continued hlate hlast

/-- A cycle that has a convex plan with an entry for each of two knots or more
    ends well, however its fits and its refinement end. It leaves at least one
    sample in its buffer and goes on standing still for as long as is asked
    for. On the way the path is sampled to its end, no bounds of a fit cross,
    and the refinement has the sizes it needs. -/
theorem cycle_completes {p : Planner R} (hp : p.Checked) {fit : ConvexSolver R}
    (hfit : fit.Dependable) (nonlinear : RefinementSolver R)
    (convex : Horizon R → SpeedSeries R → Outcome R (KnotProfile R)) {path : Path R}
    (hpath : path.points ≠ []) (before : SpeedSeries R) {x : Surroundings R}
    (harrived : x.arrived = false) (recording : Option (Recording R)) {h : Horizon R}
    {k : KnotProfile R}
    (hfirst : (p.firstPlan { p.stages fit nonlinear with convex := convex } before.copy x
      recording).result = .ok (h, k))
    (hknots : 2 ≤ h.knots) (hk : k.Shaped h.knots.toNat) :
    (∃ res d, (p.cycle { p.stages fit nonlinear with convex := convex } (some path) (some before) x
        recording).result = .ok res ∧ res.stages.getLast? = some .done ∧
      (p.cycle { p.stages fit nonlinear with convex := convex } (some path) (some before) x
        recording).buffer = some d ∧ d.samples ≠ [] ∧
      ∀ last, d.samples.getLast? = some last →
        p.comfort.publishTime ≤ last.t + p.comfort.publishUnit) ∧
    (∃ first last samples, path.front = .ok first ∧ path.back = .ok last ∧
      sampleCurvature path p.settings.curvatureFit.spacing = .ok samples ∧
      last.s + p.settings.curvatureFit.spacing ≤
        first.s + (samples.length : R) * p.settings.curvatureFit.spacing) ∧
    (∀ samples start q, fitProblem samples start p.settings.curvatureFit = .ok q ∨
        fitProblem samples start p.settings.limitFit = .ok q → q.constraints.Ordered) ∧
    ∀ curvature limit, ∃ r, (p.refinement h k curvature limit).result = .ok r := by
  rcases hp.curvatureFit with ⟨_, hcurvature⟩
  rcases hp.limitFit with ⟨_, hbound⟩
  have hunit := ((Comfort.checked_iff _).mp hp.comfort).2
  -- A horizon has the step of the settings, and was made from a limit of two points.
  have hhorizon := (firstPlan_ok hfirst).1
  have hfits := horizon_fits hhorizon hknots
  rcases horizon_parts hhorizon with ⟨hstep, hlimit, _⟩
  have hpos : 0 < h.step := by
    rw [hstep]
    exact ((PlanSettings.checked_iff _).mp hp.settings).step_pos
  refine ⟨?_, ?_, ?_, ?_⟩
  · rcases finalPlan_total hp hfit nonlinear convex hpath hfits hlimit hpos hk
      (p.firstPlan { p.stages fit nonlinear with convex := convex } before.copy x
        recording).recording with ⟨stage, c, hfinal, hc⟩
    rcases fillBuffer_total hunit hpos (by omega : 0 < h.knots.toNat) hc with
      ⟨d, hfill, hsamples, hlasts⟩
    rw [cycle_eq_run hpath harrived]
    unfold run
    simp only [hfirst, hfinal, hfill]
    exact ⟨_, d, rfl, rfl, rfl, hsamples, hlasts⟩
  · exact sampleCurvature_total hpath (FitDraft.checked_sound hcurvature).spacing_pos
  · intro samples start q hq
    rcases hq with hq | hq
    · exact (fitProblem_for hq).ordered (FitDraft.checked_sound hcurvature)
    · exact (fitProblem_for hq).ordered (FitDraft.checked_sound hbound)
  · intro curvature limit
    rcases p.refinement_total hfits hk curvature limit with ⟨r, hr, _⟩
    exact ⟨r, hr⟩

end Planner

/-! A plan that leads backwards -/

/-- The solver that stays at the value it starts from, which is the best there
    is for samples that do not change. -/
def ConvexSolver.level : ConvexSolver R := fun budget q =>
  if budget ≤ 0 then .error .budget
  else .ok ⟨.solved, 0, ⟨List.replicate q.knots (q.start.headD 0), List.replicate q.knots 0,
    List.replicate q.knots 0⟩⟩

theorem ConvexSolver.dependable_level : (ConvexSolver.level : ConvexSolver R).Dependable := by
  constructor
  · intro budget q hbudget _ _
    exact ⟨_, if_neg (by omega)⟩
  · intro budget q answer hanswer _
    rcases ite_error_ok hanswer with ⟨_, hanswer⟩
    rw [← Except.ok.inj hanswer]
    exact ⟨List.length_replicate, List.length_replicate, List.length_replicate⟩

/-- The stages of a rider whose convex plan leads backwards and cannot be
    refined. -/
def backing : Stages Rat :=
  { rider.stages .level fun _ _ => .brokeDown "no way forward" with
    convex := fun _ _ => pure ⟨[0, -1], [1, -3], [0, -4]⟩ }

/-- A straight road and a rolling start. -/
def backward : CycleReport Rat :=
  rider.cycle backing (some ⟨[⟨0, 0, 0, 0, 0, 0, 0⟩, ⟨10, 0, 0, 0, 0, 0, 10⟩]⟩)
    (some ⟨[⟨0, 0, 1, 0, 0⟩, ⟨10, 10, 1, 0, 0⟩]⟩) openRoad none

theorem rider_checked : rider.Checked where
  settings := by
    have husual : (PlanSettings.usual : PlanSettings Rat).Sound :=
      (PlanSettings.checked_iff _).mp PlanSettings.usual_checked
    exact (PlanSettings.checked_iff _).mpr { husual with step_pos := one_pos }
  comfort := Comfort.usual_checked
  vehicle := Vehicle.usual_checked
  curvatureFit := (FitDraft.checked_iff _).mpr FitSettings.curvature_sound
  limitFit := (FitDraft.checked_iff _).mpr FitSettings.speedLimit_sound

/-- Even a plan that leads backwards is published, as far as it goes forward. -/
theorem Planner.cycle_completes_backward : ∃ res d, backward.result = .ok res ∧
    res.stages.getLast? = some .done ∧ backward.buffer = some d ∧ d.samples ≠ [] := by
  have htwo : ((rider.firstPlan backing (SpeedSeries.copy ⟨[⟨0, 0, 1, 0, 0⟩, ⟨10, 10, 1, 0, 0⟩]⟩)
      openRoad none).result.toOption.map fun a => (a.1.knots, a.2.p, a.2.v, a.2.a)) =
      some (2, [0, -1], [1, -3], [0, -4]) := by decide +kernel
  rcases hfirst : (rider.firstPlan backing
    (SpeedSeries.copy ⟨[⟨0, 0, 1, 0, 0⟩, ⟨10, 10, 1, 0, 0⟩]⟩) openRoad none).result with e | ⟨h, k⟩
  · rw [hfirst] at htwo
    exact absurd htwo (by simp [Except.toOption])
  rw [hfirst] at htwo
  simp only [Except.toOption, Option.map_some, Option.some.injEq, Prod.mk.injEq] at htwo
  rcases htwo with ⟨hknots, hp, hv, ha⟩
  have hshaped : k.Shaped h.knots.toNat := by
    constructor
    · rw [hp, hknots]
      rfl
    · rw [hv, hknots]
      rfl
    · rw [ha, hknots]
      rfl
  rcases (cycle_completes rider_checked ConvexSolver.dependable_level _ _ (List.cons_ne_nil _ _) _
    rfl none hfirst (by omega) hshaped).1 with ⟨res, d, hres, hdone, hbuffer, hsamples, _⟩
  exact ⟨res, d, hres, hdone, hbuffer, hsamples⟩

end JerkPlan
