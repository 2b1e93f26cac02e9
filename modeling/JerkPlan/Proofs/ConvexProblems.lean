import JerkPlan.Proofs.FitOutcomes
import JerkPlan.Proofs.OpenCorridors
import JerkPlan.Proofs.PlanLimits

/-!
# Problems of the convex plan

A solver has no reason to refuse the problem of a convex plan.

A solver that is asked about bounds of which a lower one is above its upper one
does not answer at all, and that is no failure of a stage: it passes through
the cycle and leaves the buffer as it was. So the bounds of every row must be
in order before a solver sees them. Each block of rows has its order from
somewhere else. The corridor has it from the mode it was made in, since the
soft mode opens what has closed and the simple mode fails there. Speeds have it
from the legal speed. Braking and jerk are given by their strength, whatever
its sign, and the limits on the other side are checked with the settings. What
is multiplied by the step keeps its order, and so does what is clipped.

The problem itself exists whenever its horizon has two knots, a step and an
interval for each knot, and the rough plan changes nothing about that.

## Main definitions

* `ConvexAims`: The weights and references of a convex problem.
* `Horizon.AllowsRest`: Limits between which standing still lies.

## Theorems

* `referenceDistances_eq`: What the rough motion says of each knot.
* `referenceDistances_total`, `convexProblem_total`: The problem exists.
* `convexProblem_aims`: What it is weighed by.
* `ConvexAims.weighted`, `ConvexFor.ordered`: It gives no reason to refuse it.
* `Corridor.compile_ordered`: The intervals of a corridor are in order.
* `Planner.horizon_eq`: All that a horizon takes.
* `Planner.horizon_allowsRest`, `Planner.convexProblem_ready`: Horizons of
  checked planners.
* `planConvex_error`, `planConvex_staged`: How a convex plan fails.
* `Planner.planConvex_unrefused`: No solver has a reason to refuse the problem.
-/

namespace JerkPlan

variable {R : Type} [ExactScalar R]

/-! The problem of a horizon -/

/-- Where the rough motion is at every knot, each read at its time or at the end of the
    motion that is nearer to it. -/
theorem referenceDistances_eq {rough : SpeedSeries R} {first last : SpeedSample R}
    (hfirst : rough.samples.head? = some first) (hlast : rough.samples.getLast? = some last)
    (h : Horizon R) : referenceDistances rough h =
      .ok ((List.range h.knots.toNat).map fun (i : Nat) =>
        (rough.byTime (min (max ((i : R) * h.step) first.t) last.t)).elim h.place (·.s)) := by
  rw [referenceDistances, SpeedSeries.front, SpeedSeries.back, hfirst, hlast, Option.elim_some,
    Option.elim_some]
  refine congrArg Except.ok ?_
  rw [Horizon.times, knotTimes, List.map_map]
  simp only [Function.comp_def, greater_eq_max, lesser_eq_min]

/-- Two samples say where the rough motion is at every knot. -/
theorem referenceDistances_total {rough : SpeedSeries R} (h : Horizon R)
    (hrough : 2 ≤ rough.samples.length) :
    ∃ targets, referenceDistances rough h = .ok targets ∧ targets.length = h.knots.toNat := by
  have hsome : rough.samples ≠ [] :=
    List.ne_nil_of_length_pos (Nat.lt_of_lt_of_le Nat.two_pos hrough)
  refine ⟨_, referenceDistances_eq (List.head?_eq_some_head hsome)
    (List.getLast?_eq_some_getLast hsome) h, ?_⟩
  rw [List.length_map, List.length_range]

/-- What a problem of the convex plan is weighed by: accelerations, their
    changes, and where two samples allow it the distances to the rough
    motion. -/
structure ConvexAims (rough : SpeedSeries R) (p : PlanSettings R) (q : KnotProblem R) : Prop where
  kind : q.kind = .motion
  weights : [q.pWeight, q.vWeight, q.aWeight, q.jerkWeight] =
    [0, 0, p.accelerationWeight, p.jerkWeight]
  followed : 2 ≤ rough.samples.length →
    ∃ targets, q.reference = some (List.replicate q.knots p.referenceWeight, targets)
  free : rough.samples.length < 2 → q.reference = none
  final : q.finalReference = none
  slope : q.slopeReference = none

theorem convexProblem_aims {h : Horizon R} {rough : SpeedSeries R} {p : PlanSettings R}
    {q : KnotProblem R} (hq : (convexProblem h rough p).result = .ok q) :
    ConvexAims rough p q := by
  unfold convexProblem at hq
  rcases Outcome.bind_ok_iff.mp hq with ⟨q₀, hmake, hq⟩
  rcases Outcome.bind_ok_iff.mp hq with ⟨bounds, _, hq⟩
  rcases KnotProblem.make_checked hmake with ⟨hknots, hstep⟩
  rw [Outcome.result_of, KnotProblem.make_eq hknots hstep, Except.ok.injEq] at hmake
  subst hmake
  by_cases hrough : 2 ≤ rough.samples.length
  · rw [if_pos hrough] at hq
    rcases Outcome.bind_ok_iff.mp hq with ⟨targets, _, hq⟩
    rcases ite_error_ok hq with ⟨_, hq⟩
    rw [← Except.ok.inj hq]
    exact ⟨rfl, rfl, fun _ => ⟨targets, rfl⟩, fun hshort => absurd hrough (by omega), rfl, rfl⟩
  · rw [if_neg hrough] at hq
    rcases Outcome.bind_ok_iff.mp hq with ⟨_, _, hq⟩
    rw [Outcome.result_pure, Except.ok.injEq] at hq
    rw [← hq]
    exact ⟨rfl, rfl, fun hlong => absurd hlong hrough, fun _ => rfl, rfl, rfl⟩

/-- A convex plan has an objective. -/
theorem ConvexAims.kind_ne {rough : SpeedSeries R} {p : PlanSettings R} {q : KnotProblem R}
    (hq : ConvexAims rough p q) : q.kind ≠ .bare := by
  rw [hq.kind]
  exact ProblemKind.noConfusion

/-- A horizon with two knots, a step and an interval for each knot has a
    problem. -/
theorem convexProblem_total {h : Horizon R} (hknots : 2 ≤ h.knots) (hstep : 0 < h.step)
    (hlength : h.corridor.hard.length = h.knots.toNat) (rough : SpeedSeries R)
    (p : PlanSettings R) : ∃ q, (convexProblem h rough p).result = .ok q := by
  have hsettle := settle_of_length (by omega : 0 < h.knots.toNat) hlength
  refine Outcome.bind_total (KnotProblem.make_eq hknots hstep) ?_
  refine Outcome.bind_total hsettle ?_
  by_cases hrough : 2 ≤ rough.samples.length
  · rw [if_pos hrough]
    rcases referenceDistances_total h hrough with ⟨targets, htargets, hcount⟩
    -- There is a target for each knot, so the reference is taken.
    exact Outcome.bind_total htargets ⟨_, if_neg (not_not.mpr hcount)⟩
  · rw [if_neg hrough]
    exact ⟨_, rfl⟩

/-- No weight of a convex problem is negative when those of its settings are
    not. -/
theorem ConvexAims.weighted {rough : SpeedSeries R} {p : PlanSettings R} {q : KnotProblem R}
    (hq : ConvexAims rough p q) (hacceleration : 0 ≤ p.accelerationWeight)
    (hjerk : 0 ≤ p.jerkWeight) (hreference : 0 ≤ p.referenceWeight) : q.Weighted := by
  have hweights := hq.weights
  simp only [List.cons.injEq, and_true] at hweights
  rcases hweights with ⟨hp, hv, ha, hj⟩
  refine ⟨hp.ge, hv.ge, ha ▸ hacceleration, hj ▸ hjerk, fun r hr w hw => ?_, fun r hr => ?_,
    fun r hr => ?_⟩
  · by_cases hrough : 2 ≤ rough.samples.length
    · rcases hq.followed hrough with ⟨targets, hfollowed⟩
      rw [hfollowed, Option.some.injEq] at hr
      rw [← hr] at hw
      rw [List.eq_of_mem_replicate hw]
      exact hreference
    · rw [hq.free (by omega)] at hr
      exact absurd hr (by simp only [reduceCtorEq, not_false_eq_true])
  · exact absurd (hq.final.symm.trans hr) (by simp only [reduceCtorEq, not_false_eq_true])
  · exact absurd (hq.slope.symm.trans hr) (by simp only [reduceCtorEq, not_false_eq_true])

/-- Standing still is within the limits of acceleration and jerk. -/
structure Horizon.AllowsRest (h : Horizon R) : Prop where
  acceleration : h.minAcceleration ≤ 0 ∧ 0 ≤ h.maxAcceleration
  jerk : h.minJerk ≤ 0 ∧ 0 ≤ h.maxJerk

/-- The bounds of a convex problem are in order when the intervals of its
    corridor are and standing still is allowed. -/
theorem ConvexFor.ordered {h : Horizon R} {q : KnotProblem R} (hq : ConvexFor h q)
    (hrest : h.AllowsRest) (hhard : ∀ b ∈ h.corridor.hard, b.1 ≤ b.2)
    (hspeed : 0 ≤ greater h.legalSpeed (h.speed + startSpeedMargin)) :
    q.constraints.Ordered := by
  refine KnotProblem.OrderedBounds.constraints ⟨?_, ?_, ?_, ?_⟩ (hq.step ▸ hq.step_pos)
  · rw [hq.pBounds, List.forall_mem_map]
    exact hhard
  · rw [hq.vBounds]
    exact List.forall_mem_replicate.mpr (.inr hspeed)
  · rw [hq.aBounds]
    exact List.forall_mem_replicate.mpr (.inr (hrest.acceleration.1.trans hrest.acceleration.2))
  · rw [hq.jerkBounds]
    exact hrest.jerk.1.trans hrest.jerk.2

/-! Corridors -/

/-- The hard intervals of a corridor are in order in either mode. -/
theorem Corridor.compile_ordered {regions : List (Region R)} {knots : Int} {step length : R}
    {rough : SpeedSeries R} {brake : Option (SpeedSeries R)} {c : Comfort R} {p : PlanSettings R}
    {corridor : Corridor R} (hmargin : 0 < p.boundMargin)
    (h : (compile regions knots step length rough brake c p).result = .ok corridor) :
    ∀ b ∈ corridor.hard, b.1 ≤ b.2 := by
  unfold compile at h
  split at h
  · rcases Outcome.bind_ok_iff.mp h with ⟨os, hos, h⟩
    rw [← Except.ok.inj h, List.forall_mem_map]
    -- In the soft mode there is even room left.
    exact of_openings hos fun i _ o ho => (softOpening_ok hmargin ho).1.1.le
  · rcases Outcome.bind_ok_iff.mp h with ⟨os, hos, h⟩
    rw [← Except.ok.inj h]
    refine of_openings hos fun i _ o ho => ?_
    rw [simpleInterval_result] at ho
    rcases bind_eq_ok_iff.mp ho with ⟨b, _, ho⟩
    rcases ite_error_ok ho with ⟨hopen, ho⟩
    rw [← Except.ok.inj ho]
    exact not_lt.mp hopen

/-! Horizons -/

namespace Planner

variable {p : Planner R} {rough : SpeedSeries R} {x : Surroundings R} {h : Horizon R}

/-- All that a horizon takes from the settings and the surroundings. -/
theorem horizon_eq (hh : (p.horizon rough x).result = .ok h) :
    h = { place := 0
          speed := x.speed
          acceleration := x.acceleration
          step := p.settings.step
          knots := h.knots
          length := x.length
          time := x.time
          legalSpeed := x.legalSpeed
          topSpeed := greater x.legalSpeed (x.speed + topSpeedMargin)
          minAcceleration := -magnitude p.vehicle.maxDeceleration
          maxAcceleration := p.vehicle.maxAcceleration
          minJerk := -magnitude p.comfort.jerkLower
          maxJerk := p.comfort.jerkUpper
          corridor := h.corridor
          cruiseSpeed := x.cruiseSpeed } := by
  rcases horizon_made hh with ⟨knots, corridor, _, _, _, rfl⟩
  rfl

/-- The sign of a braking strength or of a lower jerk does not matter. -/
theorem horizon_allowsRest (hp : p.Checked) (hh : (p.horizon rough x).result = .ok h) :
    h.AllowsRest := by
  have hbraking (a : R) : -magnitude a ≤ 0 := by
    rw [magnitude_eq_abs]
    exact neg_nonpos.mpr (abs_nonneg a)
  rw [horizon_eq hh]
  exact ⟨⟨hbraking _, ((Vehicle.checked_iff _).mp hp.vehicle).1.le⟩,
    ⟨hbraking _, ((Comfort.checked_iff _).mp hp.comfort).1.le⟩⟩

/-- A horizon of a checked planner with two knots has a problem, with the
    limits and the aims of the plan. -/
theorem convexProblem_ready (hp : p.Checked) (hh : (p.horizon rough x).result = .ok h)
    (hknots : 2 ≤ h.knots) :
    ∃ q, (convexProblem h rough p.settings).result = .ok q ∧ ConvexFor h q ∧
      ConvexAims rough p.settings q ∧ q.Weighted := by
  have hsettings := (PlanSettings.checked_iff _).mp hp.settings
  rcases horizon_parts hh with ⟨hstep, _, hcorridor⟩
  have hpos : 0 < h.step := hstep ▸ hsettings.step_pos
  rcases convexProblem_total hknots hpos (Corridor.length_compile hcorridor).1 rough p.settings with
    ⟨q, hq⟩
  have haims := convexProblem_aims hq
  have hsigns := hsettings.weights
  simp only [List.forall_mem_cons] at hsigns
  rcases hsigns with ⟨hacceleration, hjerk, _, _, _, hreference, _⟩
  exact ⟨q, hq, convexProblem_for hq, haims, haims.weighted hacceleration hjerk hreference⟩

end Planner

/-! Solving -/

/-- A convex plan whose problem exists fails as its solver does, or because the
    answer is not accepted. -/
theorem planConvex_error {solve : ConvexSolver R} {h : Horizon R} {rough : SpeedSeries R}
    {p : PlanSettings R} {q : KnotProblem R} (hq : (convexProblem h rough p).result = .ok q)
    {e : Failure R} (he : (planConvex solve h rough p).result = .error e) :
    (q.optimize solve p.convexBudget).result = .error e ∨
      ∃ answer words, solve p.convexBudget q = .ok answer ∧ answer.status.accepted = false ∧
        e = .stage (.convex words (some answer.status.name)) := by
  rcases Outcome.bind_error_iff.mp he with he | ⟨q', hq', he⟩
  · rw [hq] at he
    exact absurd he (by simp only [reduceCtorEq, not_false_eq_true])
  rw [hq, Except.ok.injEq] at hq'
  subst hq'
  rcases Outcome.bind_error_iff.mp he with he | ⟨answer, hanswer, he⟩
  · exact Or.inl he
  right
  by_cases haccepted : answer.status.accepted = true
  · rw [if_pos haccepted] at he
    exact absurd he (by simp only [Outcome.result_pure, reduceCtorEq, not_false_eq_true])
  · rw [if_neg haccepted] at he
    exact ⟨answer, _, KnotProblem.optimize_ok hanswer, Bool.not_eq_true _ ▸ haccepted,
      (Except.error.inj he).symm⟩

/-- The only stage that a convex plan can fail in is its own. -/
theorem planConvex_staged {solve : ConvexSolver R} {h : Horizon R} {rough : SpeedSeries R}
    {p : PlanSettings R} {c : StageFailure}
    (he : (planConvex solve h rough p).result = .error (.stage c)) :
    ∃ reason status, c = .convex reason status := by
  rcases hq : (convexProblem h rough p).result with e | q
  · have hproblem : (planConvex solve h rough p).result = .error e :=
      Outcome.bind_error_iff.mpr (.inl hq)
    rw [he, Except.error.injEq] at hproblem
    rw [← hproblem] at hq
    exact (convexProblem_unstaged h rough p _ hq).elim
  · rcases planConvex_error hq he with hasked | ⟨answer, words, _, _, hstage⟩
    · exact (q.optimize_unstaged solve p.convexBudget _ hasked).elim
    · exact ⟨words, _, Failure.stage.inj hstage⟩

/-- A checked planner with a horizon of two knots asks about bounds that are in
    order, unless the legal speed is negative. Then a solver that refuses
    nothing without a reason either has its answer accepted, or fails the
    stage. -/
theorem Planner.planConvex_unrefused {p : Planner R} (hp : p.Checked) {rough : SpeedSeries R}
    {x : Surroundings R} (hlegal : 0 ≤ x.legalSpeed) {h : Horizon R}
    (hh : (p.horizon rough x).result = .ok h) (hknots : 2 ≤ h.knots) :
    ∃ q, (convexProblem h rough p.settings).result = .ok q ∧ q.constraints.Rectangular ∧
      q.constraints.Ordered ∧
        ∀ solve : ConvexSolver R, solve.Dependable → ∀ e,
          (planConvex solve h rough p.settings).result = .error e →
            ∃ words status, e = .stage (.convex words (some status)) := by
  have hsettings := (PlanSettings.checked_iff _).mp hp.settings
  rcases convexProblem_ready hp hh hknots with ⟨q, hq, hfor, haims, hweighted⟩
  rcases horizon_parts hh with ⟨_, _, hcorridor⟩
  have hspeed : 0 ≤ greater h.legalSpeed (h.speed + startSpeedMargin) := by
    rw [horizon_eq hh, greater_eq_max]
    exact hlegal.trans (le_max_left _ _)
  have hordered := hfor.ordered (horizon_allowsRest hp hh)
    (Corridor.compile_ordered hsettings.margin_pos hcorridor) hspeed
  refine ⟨q, hq, KnotProblem.rectangular_constraints hfor.wellFormed, hordered,
    fun solve hsolve e he => ?_⟩
  rcases planConvex_error hq he with hasked | ⟨answer, words, _, _, rfl⟩
  · -- The solver answers, so asking it does not fail.
    rcases KnotProblem.optimize_total hsolve hsettings.budgets.1 haims.kind_ne
      (hfor.step ▸ hfor.step_pos) hordered hweighted with ⟨answer, hanswer⟩
    rw [hanswer] at hasked
    exact absurd hasked (by simp only [reduceCtorEq, not_false_eq_true])
  · exact ⟨words, _, rfl⟩

/-! Signs turned round -/

/-- A planner without soft intervals whose braking is given as a negative
    number and whose lower jerk as a positive one. -/
def contrary : Planner Rat :=
  { Planner.usual with
    comfort := { Comfort.usual with jerkLower := 4, softBounds := false }
    vehicle := ⟨2, -6⟩ }

/-- Somebody to follow on a road on which one may only stand. -/
def closedRoad : Surroundings Rat where
  regions := [⟨.follow, [(0, 18), (9, 18)], [(0, 22), (9, 22)], 0, none⟩]
  length := 30
  time := 1 / 10
  speed := 1
  acceleration := 0
  limit := ⟨[(0, 5), (30, 5)]⟩
  cruiseSpeed := 5
  legalSpeed := 0
  brake := none
  arrived := false

theorem contrary_checked : contrary.Checked :=
  { Planner.usual_checked with
    comfort := (Comfort.checked_iff _).mpr ⟨by decide +kernel, by decide +kernel⟩
    vehicle := (Vehicle.checked_iff _).mpr ⟨by decide +kernel, by decide +kernel⟩ }

/-- The bounds are in order with all signs turned round. -/
theorem Planner.planConvex_unrefused_contrary : contrary.Checked ∧ 0 ≤ closedRoad.legalSpeed ∧
    ∃ h q, (contrary.horizon ⟨[]⟩ closedRoad).result = .ok h ∧ h.knots = 2 ∧
      h.corridor.hard = [(0, 10), (0, 10)] ∧
        (convexProblem h ⟨[]⟩ contrary.settings).result = .ok q ∧ q.constraints.Ordered := by
  have hparts : ((contrary.horizon ⟨[]⟩ closedRoad).result.toOption.map fun h =>
      (h.knots, h.corridor.hard)) = some (2, [(0, 10), (0, 10)]) := by decide +kernel
  have hlegal : 0 ≤ closedRoad.legalSpeed := by decide +kernel
  rcases hh : (contrary.horizon ⟨[]⟩ closedRoad).result with e | h
  · rw [hh] at hparts
    exact absurd hparts (by simp [Except.toOption])
  rw [hh] at hparts
  simp only [Except.toOption, Option.map_some, Option.some.injEq, Prod.mk.injEq] at hparts
  rcases hparts with ⟨hknots, hhard⟩
  rcases planConvex_unrefused contrary_checked hlegal hh (by omega) with ⟨q, hq, _, hordered, _⟩
  exact ⟨contrary_checked, hlegal, h, q, rfl, hknots, hhard, hq, hordered⟩

end JerkPlan
