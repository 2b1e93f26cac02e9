import JerkPlan.Proofs.CheckedSettings
import JerkPlan.Proofs.CurveKnots
import JerkPlan.Proofs.PlanLimits
import JerkPlan.Proofs.Publishing
import JerkPlan.Proofs.CycleSteps

/-!
# Limits of a cycle

A cycle that plans leaves a motion within the limits of its horizon.

The solvers are not looked into. `Planner.Trusts` is all that is assumed of
them: an answer that a cycle accepts keeps the constraints of the program it
was asked about. Everything after that is the cycle's own doing. It chooses
between two profiles, publishes the one it chose, and continues it standing
still. Which profile was chosen does not matter in the end, since both keep
the limits, and publishing loses nothing of a motion that never goes
backwards.

The example at the end is a whole cycle on an empty road, solvers included.

## Main definitions

* `Planner.Trusts`: What is assumed of the solvers.
* `Horizon.Published`: A series within the limits of a horizon.
* `ConvexSolver.knowing`, `RefinementSolver.knowing`: Solvers with one answer.
* `ride`: A cycle.

## Theorems

* `Horizon.Allows.published`: A published profile keeps its limits.
* `Planner.Trusts.allows`: Either profile of a cycle keeps the limits.
* `Planner.cycle_published`: A cycle that plans keeps the limits.
* `Planner.trusts_knowing`: Solvers that offer only what is feasible.
-/

namespace JerkPlan

variable {R : Type} [ExactScalar R]

/-- Accepted answers keep the constraints of the program they answer, and
    profiles have an entry for each of its knots. -/
structure Planner.Trusts (p : Planner R) (solve : ConvexSolver R)
    (nonlinear : RefinementSolver R) : Prop where
  convex : ∀ h rough q answer, (convexProblem h rough p.settings).result = .ok q →
    solve p.settings.convexBudget q = .ok answer → answer.status.accepted = true →
      answer.profile.Shaped q.knots ∧ q.Feasible answer.profile
  refined : ∀ r program report iterations cost profile,
    RefinementProblem.program r = .ok program →
      nonlinear p.settings.refinementBudget r = .ended report iterations cost profile →
        report.success = true → ∃ x, program.Feasible x ∧ profile = profileAt r.knots x

/-- A series keeps the limits of a horizon: a sample at every knot within
    them, each led to from the one before by the jerk it tells, and nothing
    but standing where the last knot is from there on. -/
structure Horizon.Published (h : Horizon R) (d : SpeedSeries R) : Prop where
  two_le_knots : 2 ≤ h.knots
  knots : ∀ i, i < h.knots.toNat → ∃ q, d.samples[i]? = some q ∧ q.t = (i : R) * h.step ∧
    h.AllowsAt i ⟨q.s, q.v, q.a⟩ ∧ (h.minJerk ≤ q.da ∧ q.da ≤ h.maxJerk) ∧ (i = 0 → q.da = 0)
  joined : ∀ i q q', i + 1 < h.knots.toNat → d.samples[i]? = some q →
    d.samples[i + 1]? = some q' →
      (Motion.mk q.s q.v q.a).advance h.step q'.da = ⟨q'.s, q'.v, q'.a⟩
  rest : ∀ i q last, h.knots.toNat ≤ i → d.samples[i]? = some q →
    d.samples[h.knots.toNat - 1]? = some last → q.s = last.s
  ceiling : ∀ q ∈ d.samples, ∃ b ∈ h.corridor.hard, q.s ≤ b.2

/-- A profile within the limits is published within them, however it is
    continued. -/
theorem Horizon.Allows.published {h : Horizon R} {k : KnotProfile R} {e d : SpeedSeries R}
    {finish unit : R} (hs : h.Allows (stateAt h.knots.toNat k.point))
    (hk : k.Shaped h.knots.toNat) (hn : 2 ≤ h.knots) (hstep : 0 < h.step)
    (hjerk : h.minJerk ≤ 0 ∧ 0 ≤ h.maxJerk) (he : publish k h.step = (e, none))
    (hd : e.fill finish unit = .ok d) : h.Published d := by
  rw [publish_eq hstep hk fun i hi => (hs.knots i hi).speed.1, Prod.mk.injEq] at he
  rcases of_fill hd with ⟨rest, hsamples, hrest⟩
  rw [← he.1] at hsamples hrest
  simp only at hsamples hrest
  have hlength : ((List.range h.knots.toNat).map
      (knotSample h.step (stateAt h.knots.toNat k.point))).length = h.knots.toNat := by
    rw [List.length_map, List.length_range]
  have hknot (i : Nat) (hi : i < h.knots.toNat) :
      d.samples[i]? = some (knotSample h.step (stateAt h.knots.toNat k.point) i) := by
    rw [hsamples, List.getElem?_append_left (by omega), List.getElem?_map, List.getElem?_range hi,
      Option.map_some]
  -- whatever was appended stands where the last knot is
  have hstand (q : SpeedSample R) (hq : q ∈ rest) :
      q.s = (stateAt h.knots.toNat k.point (h.knots.toNat - 1)).p := by
    rcases hrest q hq with ⟨last, hlast, hqs, _⟩
    rw [List.getLast?_eq_getElem?, hlength, List.getElem?_map,
      List.getElem?_range (by omega), Option.map_some, Option.some.injEq] at hlast
    rw [hqs, ← hlast, knotSample]
  constructor
  · exact hn
  · intro i hi
    refine ⟨_, hknot i hi, rfl, hs.knots i hi, ?_, fun hzero => if_pos hzero⟩
    cases i with
    | zero => exact hjerk
    | succ i => exact hs.jerk i hi
  · -- The jerk that a sample tells is the one that leads to it.
    intro i q q' hi hq hq'
    rw [hknot i (by omega), Option.some.injEq] at hq
    rw [hknot (i + 1) hi, Option.some.injEq] at hq'
    rw [← hq, ← hq']
    exact (Motion.advance_eq_iff hstep _ _).mpr (hs.linked i hi)
  · intro i q last hi hq hlast
    rw [hknot _ (by omega), Option.some.injEq] at hlast
    rw [hsamples, List.getElem?_append_right (by omega)] at hq
    rw [hstand q (List.mem_of_getElem? hq), ← hlast, knotSample]
  · intro q hq
    have hceiling (i : Nat) (hi : i < h.knots.toNat) :
        ∃ b ∈ h.corridor.hard, (stateAt h.knots.toNat k.point i).p ≤ b.2 := by
      rcases (hs.knots i hi).place with ⟨b, hb, _, hle⟩
      exact ⟨b, List.mem_of_getElem? hb, hle⟩
    rw [hsamples, List.mem_append, List.mem_map] at hq
    rcases hq with ⟨i, hi, rfl⟩ | hq
    · exact hceiling i (List.mem_range.mp hi)
    · rw [hstand q hq]
      exact hceiling _ (by omega)

/-- The profile that a cycle publishes keeps the limits of its horizon. -/
theorem Planner.Trusts.allows {p : Planner R} {solve : ConvexSolver R}
    {nonlinear : RefinementSolver R} (htrust : p.Trusts solve nonlinear) {h : Horizon R}
    (hm : h.Moderate) (htop : greater h.legalSpeed (h.speed + startSpeedMargin) ≤ h.topSpeed)
    {rough : SpeedSeries R} {k k' : KnotProfile R}
    (hk : (planConvex solve h rough p.settings).result = .ok k)
    (hk' : k' = k ∨ ∃ curvature bound r, (p.refinement h k curvature bound).result = .ok r ∧
      (refine nonlinear p.settings.refinementBudget r).result = .ok k') :
    2 ≤ h.knots ∧ 0 < h.step ∧ k'.Shaped h.knots.toNat ∧
      h.Allows (stateAt h.knots.toNat k'.point) := by
  rcases planConvex_ok hk with ⟨q, answer, hq, hsolve, haccepted, rfl⟩
  rcases htrust.convex h rough q answer hq hsolve haccepted with ⟨hshaped, hfeasible⟩
  have hfor := convexProblem_for hq
  have hallows := hfor.allows hm htop hfeasible
  rw [hfor.knots] at hshaped
  refine ⟨hfor.two_le_knots, hfor.step_pos, ?_⟩
  rcases hk' with rfl | ⟨curvature, bound, r, hr, hrefine⟩
  · exact ⟨hshaped, hallows⟩
  · rcases refine_ok hrefine with ⟨program, report, iterations, cost, hprogram, hanswer, hsuccess⟩
    rcases htrust.refined r program report iterations cost k' hprogram hanswer hsuccess with
      ⟨x, hx, rfl⟩
    rcases RefinementProblem.program_eq_programWith hprogram with ⟨kappa, limit, rfl⟩
    have hrefined := refinement_for hr
    have hknots : r.knots = h.knots.toNat := by rw [RefinementProblem.knots, hrefined.horizon]
    have hn : 0 < h.knots.toNat := by
      have hcount := hfor.two_le_knots
      omega
    -- the refinement is fixed to the start, which the convex plan has passed
    have hstart := hallows.knots 0 hn
    rw [hfor.start_eq hm hfeasible] at hstart
    rw [hknots]
    exact ⟨shaped_profileAt _ x,
      (hrefined.allows hn hstart hx).congr fun i hi => stateAt_profileAt hi x⟩

/-- A cycle that plans keeps the limits of its horizon: whichever answers the
    curves get, and whether or not the refinement is taken, the buffer holds a
    sample for each knot within the limits, joined by constant jerk, and then
    stands still. -/
theorem Planner.cycle_published {p : Planner R} {solve : ConvexSolver R}
    {nonlinear : RefinementSolver R} (htrust : p.Trusts solve nonlinear)
    (hcomfort : p.comfort.checked = .ok p.comfort) (curvature : Path R → Outcome R (JerkCurve R))
    (limit : SpeedLimit R → Outcome R (JerkCurve R)) (path : Option (Path R))
    (buffer : Option (SpeedSeries R)) (x : Surroundings R) (recording : Option (Recording R))
    {res : CycleResult R} {h : Horizon R}
    (hres : (p.cycle { p.stages solve nonlinear with curvature := curvature, limit := limit } path
      buffer x recording).result = .ok res)
    (hh : res.horizon = some h) (hm : h.Moderate) :
    ∃ d, (p.cycle { p.stages solve nonlinear with curvature := curvature, limit := limit } path
      buffer x recording).buffer = some d ∧ h.Published d := by
  rcases cycle_ok hres hh with ⟨way, before, hrun⟩
  rw [hrun] at hres ⊢
  -- The horizon that is reported is the one that was planned for.
  rcases run_ok hres with ⟨h', k, recording', stage, c, d, hhorizon, hk, hfinal, hfill, hh', hd⟩
  rw [hh, Option.some.injEq] at hh'
  subst hh'
  rcases horizon_ok hhorizon with ⟨htop, hmin, hmax⟩
  rcases htrust.allows hm htop hk (finalPlan_ok hfinal) with ⟨hn, hstep, hshaped, hallows⟩
  rcases fillBuffer_ok hfill with ⟨e, he, hfilled⟩
  have hjerk : h.minJerk ≤ 0 ∧ 0 ≤ h.maxJerk := by
    rw [hmin, hmax, magnitude_eq_abs]
    exact ⟨neg_nonpos.mpr (abs_nonneg _), ((Comfort.checked_iff _).mp hcomfort).1.le⟩
  exact ⟨d, hd, hallows.published hshaped hn hstep hjerk he hfilled⟩

/-! A ride -/

instance {R : Type} (n : Nat) (k : KnotProfile R) : Decidable (k.Shaped n) :=
  decidable_of_iff (k.p.length = n ∧ k.v.length = n ∧ k.a.length = n)
    ⟨fun h => ⟨h.1, h.2.1, h.2.2⟩, fun h => ⟨h.values, h.slopes, h.bends⟩⟩

instance (q : KnotProblem R) (k : KnotProfile R) : Decidable (q.Feasible k) :=
  inferInstanceAs (Decidable (q.constraints.Hold k.point))

instance (p : RefinementProgram R) (x : Nat → R) : Decidable (p.Feasible x) :=
  inferInstanceAs (Decidable ((∀ b ∈ p.bounds.zipIdx, b.1.1.atLeast (x b.2) ∧
    b.1.2.atMost (x b.2)) ∧ ∀ r ∈ p.rows, r.lower.atLeast (r.value x) ∧ r.upper.atMost (r.value x)))

instance (h : Horizon R) : Decidable h.Moderate :=
  decidable_of_iff ((∀ x ∈ h.start, |x| ≤ Endpoint.huge) ∧
      (∀ b ∈ h.corridor.hard, |b.1| ≤ Endpoint.huge ∧ |b.2| ≤ Endpoint.huge) ∧
      |greater h.legalSpeed (h.speed + startSpeedMargin)| ≤ Endpoint.huge ∧
      (|h.minAcceleration| ≤ Endpoint.huge ∧ |h.maxAcceleration| ≤ Endpoint.huge) ∧
      (|h.minJerk * h.step| ≤ Endpoint.huge ∧ |h.maxJerk * h.step| ≤ Endpoint.huge))
    ⟨fun ⟨start, corridor, speed, acceleration, jerk⟩ =>
        ⟨start, corridor, speed, acceleration, jerk⟩,
      fun ⟨start, corridor, speed, acceleration, jerk⟩ =>
        ⟨start, corridor, speed, acceleration, jerk⟩⟩

/-- The solver that knows one profile, and offers it where it is feasible. -/
def ConvexSolver.knowing (k : KnotProfile R) : ConvexSolver R := fun _ q =>
  .ok ⟨if k.Shaped q.knots ∧ q.Feasible k then .solved else .infeasible, 0, k⟩

/-- The solver that knows one point, and offers it where it is feasible. -/
def RefinementSolver.knowing (x : Nat → R) : RefinementSolver R := fun _ r =>
  match r.program with
  | .ok program =>
    if program.Feasible x then .ended (.status .succeeded) 0 0 (profileAt r.knots x)
    else .brokeDown "infeasible"
  | .error _ => .brokeDown "no program"

/-- What a solver of one profile calls solved is feasible. -/
theorem ConvexSolver.of_knowing {k : KnotProfile R} {budget : Int} {q : KnotProblem R}
    {answer : ConvexAnswer R} (hanswer : knowing k budget q = .ok answer)
    (haccepted : answer.status.accepted = true) :
    answer.profile.Shaped q.knots ∧ q.Feasible answer.profile := by
  rw [knowing, Except.ok.injEq] at hanswer
  subst hanswer
  by_cases hfeasible : k.Shaped q.knots ∧ q.Feasible k
  · exact hfeasible
  · rw [if_neg hfeasible] at haccepted
    exact absurd haccepted Bool.false_ne_true

/-- Solvers that offer only what is feasible can be trusted. -/
theorem Planner.trusts_knowing (p : Planner R) (k : KnotProfile R) (x : Nat → R) :
    p.Trusts (.knowing k) (.knowing x) := by
  constructor
  · intro h rough q answer _ hanswer haccepted
    exact ConvexSolver.of_knowing hanswer haccepted
  · intro r program report iterations cost profile hprogram hanswer _
    simp only [RefinementSolver.knowing, hprogram] at hanswer
    by_cases hfeasible : program.Feasible x
    · rw [if_pos hfeasible, RefinementAnswer.ended.injEq] at hanswer
      exact ⟨x, hfeasible, hanswer.2.2.2.symm⟩
    · rw [if_neg hfeasible] at hanswer
      exact absurd hanswer (by simp only [reduceCtorEq, not_false_eq_true])

/-- A planner with two knots a second apart. -/
def rider : Planner Rat := { Planner.usual with settings := { PlanSettings.usual with step := 1 } }

/-- Ten metres of empty road, a second to plan for. -/
def openRoad : Surroundings Rat where
  regions := []
  length := 10
  time := 1
  speed := 1
  acceleration := 0
  limit := ⟨[(0, 5), (10, 5)]⟩
  cruiseSpeed := 5
  legalSpeed := 5
  brake := none
  arrived := false

/-- A cycle on an empty road: the convex plan keeps its speed, and the
    refinement speeds up a little. -/
def ride : CycleReport Rat :=
  rider.cycle
    { rider.stages (.knowing ⟨[0, 1], [1, 1], [0, 0]⟩)
        (.knowing fun j => ([0, 7 / 6, 1, 3 / 2, 0, 1][j]?).getD 0) with
      curvature := fun _ => pure (.ofStart ⟨0, 0, 0⟩)
      limit := fun _ => pure (.ofStart ⟨5, 0, 0⟩) }
    (some ⟨[⟨0, 0, 0, 0, 0, 0, 0⟩]⟩) (some ⟨[⟨0, 0, 1, 0, 0⟩, ⟨10, 10, 1, 0, 0⟩]⟩)
    { regions := [], length := 10, time := 1, speed := 1, acceleration := 0
      limit := ⟨[(0, 5), (10, 5)]⟩, cruiseSpeed := 5, legalSpeed := 5, brake := none
      arrived := false }
    none

/-- The result of a report with its horizon, if the refinement was taken and
    no number of the horizon is too large. -/
def CycleReport.refined? (r : CycleReport R) : Option (CycleResult R × Horizon R) :=
  match r.result with
  | .error _ => none
  | .ok res =>
    if res.upgraded then (res.horizon.filter fun h => decide h.Moderate).map (res, ·) else none

theorem CycleReport.of_refined? {r : CycleReport R} {res : CycleResult R} {h : Horizon R}
    (hr : r.refined? = some (res, h)) :
    r.result = .ok res ∧ res.upgraded = true ∧ res.horizon = some h ∧ h.Moderate := by
  unfold refined? at hr
  split at hr
  · exact absurd hr (by simp only [reduceCtorEq, not_false_eq_true])
  · next res' hres =>
      split at hr
      · next hupgraded =>
          rw [Option.map_eq_some_iff] at hr
          rcases hr with ⟨h', hh', heq⟩
          rw [Prod.mk.injEq] at heq
          rw [Option.filter_eq_some_iff, decide_eq_true_eq] at hh'
          rw [← heq.1, ← heq.2]
          exact ⟨hres, hupgraded, hh'⟩
      · exact absurd hr (by simp only [reduceCtorEq, not_false_eq_true])

/-- The ride takes its refinement, and publishes it within the limits. -/
theorem Planner.cycle_published_ride : ∃ res h d, ride.result = .ok res ∧ res.upgraded = true ∧
    res.horizon = some h ∧ ride.buffer = some d ∧ h.Published d := by
  have htaken : ride.refined?.isSome = true := by decide +kernel
  rcases Option.isSome_iff_exists.mp htaken with ⟨⟨res, h⟩, hride⟩
  rcases CycleReport.of_refined? hride with ⟨hres, hupgraded, hh, hm⟩
  have hcomfort : rider.comfort.checked = .ok rider.comfort :=
    (Comfort.checked_iff _).mpr (by decide +kernel)
  rcases cycle_published (rider.trusts_knowing _ _) hcomfort _ _ _ _ _ _ hres hh hm with
    ⟨d, hd, hpublished⟩
  exact ⟨res, h, d, hres, hupgraded, hh, hd, hpublished⟩

end JerkPlan
