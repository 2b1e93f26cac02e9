import JerkPlan.Proofs.Results
import JerkPlan.Cycle

/-!
# Steps of a cycle

What has happened in a cycle that ends well.

Every part of a cycle may fail, and most of what can be said of its result is
said by the parts before it. The lemmas here take a successful cycle apart,
from the whole down to the answers of its solvers. They assume nothing of the
scalars: they hold of rounded arithmetic as they do of exact arithmetic.

## Theorems

* `CyclePart.result_andThen`, `CyclePart.andThen_ok`: Two parts of a cycle.
* `KnotProblem.optimize_ok`, `planConvex_ok`, `refine_ok`: Accepted answers.
* `Planner.horizon_made`, `Planner.horizon_parts`, `Planner.firstPlan_ok`: The
  horizon and the convex plan.
* `Planner.secondPlan_ends`, `Planner.finalPlan_ends`: How a refinement ends, and
  whether there is one.
* `Planner.finalPlan_cases`: The profile of a cycle is one of two, and the
  checkpoint tells which.
* `Planner.fillBuffer_ok`: The buffer holds that profile, continued.
* `Planner.run_ends`, `Planner.run_ok`, `Planner.cycle_eq_run`,
  `Planner.cycle_ends`, `Planner.cycle_ok`: A whole cycle.
-/

namespace JerkPlan

variable {R : Type} [Scalar R]

/-- A cycle that ran has tried a refinement if its fourth stage says so. -/
theorem CycleStage.attempted_mem_iff {stage : CycleStage} :
    refinementAttempted ∈ [start, boundsBuilt, convexSolved, stage, done] ↔
      stage = refinementAttempted := by
  cases stage <;> decide

/-- After a part with a result comes the next one. -/
theorem CyclePart.result_andThen {R α β : Type} {x : CyclePart R α} {a : α}
    (h : x.result = .ok a) (f : Option (Recording R) → α → CyclePart R β) :
    (x.andThen f).result = (f x.recording a).result := by
  simp only [andThen, h]

/-- Two parts of a cycle give a result when both do. -/
theorem CyclePart.andThen_ok {R α β : Type} {x : CyclePart R α}
    {f : Option (Recording R) → α → CyclePart R β} {b : β} (h : (x.andThen f).result = .ok b) :
    ∃ a, x.result = .ok a ∧ (f x.recording a).result = .ok b := by
  unfold CyclePart.andThen at h
  rcases hx : x.result with e | a
  · rw [hx] at h
    exact absurd h (by simp only [reduceCtorEq, not_false_eq_true])
  · rw [hx] at h
    exact ⟨a, rfl, h⟩

/-- The answer of an optimization is the solver's. -/
theorem KnotProblem.optimize_ok {solve : ConvexSolver R} {budget : Int} {q : KnotProblem R}
    {answer : ConvexAnswer R} (h : (q.optimize solve budget).result = .ok answer) :
    solve budget q = .ok answer := by
  unfold optimize at h
  rcases Outcome.bind_ok_iff.mp h with ⟨_, _, h⟩
  rcases hsolve : solve budget q with r | a
  · rw [hsolve] at h
    exact absurd h (by simp)
  rw [hsolve] at h
  simp only at h
  -- An answer that is not accepted is given back all the same.
  split at h
  · rw [Outcome.result_pure, Except.ok.injEq] at h
    rw [h]
  · rcases Outcome.bind_ok_iff.mp h with ⟨_, _, h⟩
    rw [Outcome.result_pure, Except.ok.injEq] at h
    rw [h]

/-- A convex plan is an accepted answer. -/
theorem planConvex_ok {solve : ConvexSolver R} {h : Horizon R} {rough : SpeedSeries R}
    {p : PlanSettings R} {k : KnotProfile R} (hk : (planConvex solve h rough p).result = .ok k) :
    ∃ q answer, (convexProblem h rough p).result = .ok q ∧
      solve p.convexBudget q = .ok answer ∧ answer.status.accepted = true ∧
        answer.profile = k := by
  unfold planConvex at hk
  rcases Outcome.bind_ok_iff.mp hk with ⟨q, hq, hk⟩
  rcases Outcome.bind_ok_iff.mp hk with ⟨answer, hanswer, hk⟩
  by_cases haccepted : answer.status.accepted = true
  · rw [if_pos haccepted, Outcome.result_pure, Except.ok.injEq] at hk
    exact ⟨q, answer, hq, KnotProblem.optimize_ok hanswer, haccepted, hk⟩
  · rw [if_neg haccepted] at hk
    rcases Outcome.bind_ok_iff.mp hk with ⟨_, _, hk⟩
    exact absurd hk (by simp)

/-- A refined profile is an accepted answer about a program that exists. -/
theorem refine_ok {solve : RefinementSolver R} {budget : Int} {r : RefinementProblem R}
    {k : KnotProfile R} (h : (refine solve budget r).result = .ok k) :
    ∃ program report iterations cost, r.program = .ok program ∧
      solve budget r = .ended report iterations cost k ∧ report.success = true := by
  unfold refine at h
  rcases Outcome.bind_ok_iff.mp h with ⟨program, hprogram, h⟩
  rcases Outcome.bind_ok_iff.mp h with ⟨_, _, h⟩
  rcases hsolve : solve budget r with words | ⟨report, iterations, cost, profile⟩
  · rw [hsolve] at h
    rcases Outcome.bind_ok_iff.mp h with ⟨_, _, h⟩
    exact absurd h (by simp)
  rw [hsolve] at h
  simp only at h
  by_cases hsuccess : report.success = true
  · rw [if_pos hsuccess] at h
    rcases Outcome.bind_ok_iff.mp h with ⟨_, _, h⟩
    rw [Outcome.result_pure, Except.ok.injEq] at h
    rw [h]
    exact ⟨program, report, iterations, cost, hprogram, rfl, hsuccess⟩
  · -- Without success there is a complaint, whatever the report says.
    rw [if_neg hsuccess] at h
    split at h <;> rcases Outcome.bind_ok_iff.mp h with ⟨_, _, h⟩ <;> exact absurd h (by simp)

namespace Planner

/-- A refinement that ends either keeps the checkpoint for a reason, or is an
    upgrade to an accepted profile of the same size, about the problem of both
    fits. -/
theorem secondPlan_ends {p : Planner R} {s : Stages R} {path : Path R} {h : Horizon R}
    {limit : SpeedLimit R} {c d : Checkpoint R} {recording : Option (Recording R)}
    (hd : (p.secondPlan s path h limit c recording).result = .ok d) :
    (∃ reason, d = c.keep reason) ∨
      ∃ k curvature bound r, (s.curvature path).result = .ok curvature ∧
        (s.limit limit).result = .ok bound ∧
        (p.refinement h c.profile curvature bound).result = .ok r ∧
        (s.refine r).2.result = .ok k ∧ k.valid = true ∧ k.size = c.profile.size ∧
        d = { profile := k, stage := "nlp", upgraded := true } := by
  unfold secondPlan at hd
  rcases hx : (p.refinedProfile s path h limit c.profile recording).result with e | k
  · -- a failure that is recovered from keeps the profile there is
    simp only [hx] at hd
    left
    cases e with
    | stage cause =>
        simp only at hd
        split at hd
        · exact ⟨_, (Except.ok.inj hd).symm⟩
        · exact absurd hd (by simp only [reduceCtorEq, not_false_eq_true])
    | _ => exact absurd hd (by simp only [reduceCtorEq, not_false_eq_true])
  simp only [hx, Except.ok.injEq] at hd
  unfold refinedProfile at hx
  rcases CyclePart.andThen_ok hx with ⟨curvature, hcurvature, hx⟩
  rcases CyclePart.andThen_ok hx with ⟨bound, hbound, hx⟩
  rcases CyclePart.andThen_ok hx with ⟨r, hr, hx⟩
  rw [← hd]
  unfold Checkpoint.upgrade
  -- A profile that cannot be published is not taken.
  split
  · left
    exact ⟨_, rfl⟩
  · next hfits =>
      right
      rw [Bool.not_eq_true, Bool.or_eq_false_iff, Bool.not_eq_false', bne_eq_false_iff_eq] at hfits
      exact ⟨k, curvature, bound, r, hcurvature, hbound, hr, hx, hfits.1, hfits.2, rfl⟩

/-- What follows the convex plan is a refinement that is asked for and makes
    sense, or the checkpoint is kept for a reason. -/
theorem finalPlan_ends {p : Planner R} {s : Stages R} {path : Path R} {h : Horizon R}
    {limit : SpeedLimit R} {k : KnotProfile R} {recording : Option (Recording R)}
    {stage : CycleStage} {c : Checkpoint R}
    (hc : (p.finalPlan s path h limit k recording).result = .ok (stage, c)) :
    ((p.comfort.refine = true ∧ (startsWithinLimit h limit).result = .ok true) ∧
        stage = .refinementAttempted ∧ ∃ recording', (p.secondPlan s path h limit
          { profile := k, stage := "qp" } recording').result = .ok c) ∨
      (¬ (p.comfort.refine = true ∧ (startsWithinLimit h limit).result = .ok true) ∧
        stage = .refinementSkipped ∧
        ∃ reason, c = ({ profile := k, stage := "qp" } : Checkpoint R).keep reason) := by
  unfold finalPlan at hc
  simp only at hc
  split at hc
  · exact absurd hc (by simp only [reduceCtorEq, not_false_eq_true])
  -- Only a refinement that is tried can change the profile.
  unfold improve at hc
  split at hc
  · next hrefine =>
      rw [Except.ok.injEq, Prod.mk.injEq] at hc
      rw [Bool.not_eq_true'] at hrefine
      right
      refine ⟨fun htried => ?_, hc.1.symm, _, hc.2.symm⟩
      exact absurd htried.1 (by rw [hrefine]; exact Bool.false_ne_true)
  next hrefine =>
  rw [Bool.not_eq_true, Bool.not_eq_false'] at hrefine
  rcases CyclePart.andThen_ok hc with ⟨within, hwithin, hc⟩
  simp only [CyclePart.ofOutcome] at hwithin
  split at hc
  · next htrue =>
      rcases CyclePart.andThen_ok hc with ⟨d, hd, hc⟩
      rw [Except.ok.injEq, Prod.mk.injEq] at hc
      rw [htrue] at hwithin
      rw [← hc.2]
      exact Or.inl ⟨⟨hrefine, hwithin⟩, hc.1.symm, _, hd⟩
  · next hfalse =>
      rw [Except.ok.injEq, Prod.mk.injEq] at hc
      right
      refine ⟨fun htried => ?_, hc.1.symm, _, hc.2.symm⟩
      rw [hwithin] at htried
      exact hfalse (Except.ok.inj htried.2)

/-- The profile of a cycle is the convex plan, or the cycle tells of its upgrade
    to an accepted refinement. -/
theorem finalPlan_cases {p : Planner R} {s : Stages R} {path : Path R} {h : Horizon R}
    {limit : SpeedLimit R} {k : KnotProfile R} {recording : Option (Recording R)}
    {stage : CycleStage} {c : Checkpoint R}
    (hc : (p.finalPlan s path h limit k recording).result = .ok (stage, c)) :
    (c.upgraded = false ∧ c.profile = k) ∨
      (c.upgraded = true ∧ c.profile.valid = true ∧ c.profile.size = k.size ∧
        ∃ curvature bound r, (p.refinement h k curvature bound).result = .ok r ∧
          (s.refine r).2.result = .ok c.profile) := by
  rcases finalPlan_ends hc with ⟨_, _, _, hsecond⟩ | ⟨_, _, reason, rfl⟩
  · rcases secondPlan_ends hsecond with
      ⟨reason, rfl⟩ | ⟨k', curvature, bound, r, _, _, hr, hk', hvalid, hsize, rfl⟩
    · exact Or.inl ⟨rfl, rfl⟩
    · exact Or.inr ⟨rfl, hvalid, hsize, curvature, bound, r, hr, hk'⟩
  · exact Or.inl ⟨rfl, rfl⟩

/-- The profile of a cycle is the convex plan or an accepted refinement. -/
theorem finalPlan_ok {p : Planner R} {s : Stages R} {path : Path R} {h : Horizon R}
    {limit : SpeedLimit R} {k : KnotProfile R} {recording : Option (Recording R)}
    {stage : CycleStage} {c : Checkpoint R}
    (hc : (p.finalPlan s path h limit k recording).result = .ok (stage, c)) :
    c.profile = k ∨ ∃ curvature bound r, (p.refinement h k curvature bound).result = .ok r ∧
      (s.refine r).2.result = .ok c.profile :=
  (finalPlan_cases hc).imp And.right fun htaken => htaken.2.2.2

/-- A horizon is made of the knots of its time, a corridor for them, the settings
    and the surroundings, if the speed limit is worth the name. -/
theorem horizon_made {p : Planner R} {rough : SpeedSeries R} {x : Surroundings R} {h : Horizon R}
    (hh : (p.horizon rough x).result = .ok h) :
    ∃ knots corridor, p.knotCount x.time = .ok knots ∧ 2 ≤ x.limit.points.length ∧
      (Corridor.compile x.regions knots p.settings.step x.length rough x.brake p.comfort
        p.settings).result = .ok corridor ∧
      h = { place := 0
            speed := x.speed
            acceleration := x.acceleration
            step := p.settings.step
            knots := knots
            length := x.length
            time := x.time
            legalSpeed := x.legalSpeed
            topSpeed := greater x.legalSpeed (x.speed + topSpeedMargin)
            minAcceleration := -magnitude p.vehicle.maxDeceleration
            maxAcceleration := p.vehicle.maxAcceleration
            minJerk := -magnitude p.comfort.jerkLower
            maxJerk := p.comfort.jerkUpper
            corridor := corridor
            cruiseSpeed := x.cruiseSpeed } := by
  unfold horizon at hh
  rcases Outcome.bind_ok_iff.mp hh with ⟨knots, hknots, hh⟩
  rcases Outcome.ite_fail_ok hh with ⟨hlimit, hh⟩
  rcases Outcome.bind_ok_iff.mp hh with ⟨corridor, hcorridor, hh⟩
  rcases Outcome.bind_ok_iff.mp hh with ⟨_, _, hh⟩
  rw [Outcome.result_pure, Except.ok.injEq] at hh
  exact ⟨knots, corridor, hknots, by omega, hcorridor, hh.symm⟩

/-- A horizon has the planner's step, a speed limit worth the name, and the
    corridor of its knots. -/
theorem horizon_parts {p : Planner R} {rough : SpeedSeries R} {x : Surroundings R} {h : Horizon R}
    (hh : (p.horizon rough x).result = .ok h) :
    h.step = p.settings.step ∧ 2 ≤ x.limit.points.length ∧
      (Corridor.compile x.regions h.knots p.settings.step x.length rough x.brake p.comfort
        p.settings).result = .ok h.corridor := by
  rcases horizon_made hh with ⟨knots, corridor, _, hlimit, hcorridor, rfl⟩
  exact ⟨rfl, hlimit, hcorridor⟩

/-- A first plan that ends well is a horizon and a convex plan for it. -/
theorem firstPlan_ok {p : Planner R} {s : Stages R} {rough : SpeedSeries R} {x : Surroundings R}
    {recording : Option (Recording R)} {h : Horizon R} {k : KnotProfile R}
    (hk : (p.firstPlan s rough x recording).result = .ok (h, k)) :
    (p.horizon rough x).result = .ok h ∧ (s.convex h rough).result = .ok k := by
  unfold firstPlan at hk
  rcases hh : (p.horizon rough x).result with e | horizon
  · simp only [hh] at hk
    exact absurd hk (by simp only [reduceCtorEq, not_false_eq_true])
  simp only [hh] at hk
  rcases hplan : (s.convex horizon rough).result with e | plan
  · simp only [hplan] at hk
    exact absurd hk (by simp only [reduceCtorEq, not_false_eq_true])
  simp only [hplan, Except.ok.injEq, Prod.mk.injEq] at hk
  rcases hk with ⟨rfl, rfl⟩
  exact ⟨rfl, hplan⟩

/-- A buffer that is filled holds a published profile, continued. -/
theorem fillBuffer_ok {p : Planner R} {h : Horizon R} {c : Checkpoint R} {d : SpeedSeries R}
    (hd : p.fillBuffer h c = (d, none)) :
    ∃ e, publish c.profile h.step = (e, none) ∧
      e.fill p.comfort.publishTime p.comfort.publishUnit = .ok d := by
  unfold fillBuffer at hd
  rcases hpublish : publish c.profile h.step with ⟨e, _ | failure⟩
  · simp only [hpublish] at hd
    rcases hfill : e.fill p.comfort.publishTime p.comfort.publishUnit with failure | d'
    · simp only [hfill, Prod.mk.injEq, reduceCtorEq, and_false] at hd
    · simp only [hfill, Prod.mk.injEq, and_true] at hd
      rw [← hd]
      exact ⟨e, rfl, hfill⟩
  · simp only [hpublish, Prod.mk.injEq, reduceCtorEq, and_false] at hd

/-- A cycle that ends well on its way has gone through all of its parts, and tells
    what became of them. -/
theorem run_ends {p : Planner R} {s : Stages R} {path : Path R} {before : SpeedSeries R}
    {x : Surroundings R} {recording : Option (Recording R)} {res : CycleResult R}
    (hres : (p.run s path before x recording).result = .ok res) :
    ∃ h k recording' stage c d, (p.firstPlan s before.copy x recording).result = .ok (h, k) ∧
      (p.finalPlan s path h x.limit k recording').result = .ok (stage, c) ∧
      p.fillBuffer h c = (d, none) ∧
      res = ⟨[.start, .boundsBuilt, .convexSolved, stage, .done], c.upgraded, c.reason, some h⟩ ∧
      (p.run s path before x recording).buffer = some d := by
  unfold run at hres ⊢
  rcases hfirst : (p.firstPlan s before.copy x recording).result with e | ⟨h, k⟩
  · simp only [hfirst] at hres
    exact absurd hres (by simp only [reduceCtorEq, not_false_eq_true])
  simp only [hfirst] at hres ⊢
  rcases hfinal : (p.finalPlan s path h x.limit k
    (p.firstPlan s before.copy x recording).recording).result with e | ⟨stage, c⟩
  · simp only [hfinal] at hres
    exact absurd hres (by simp only [reduceCtorEq, not_false_eq_true])
  simp only [hfinal] at hres ⊢
  rcases hfill : p.fillBuffer h c with ⟨d, _ | e⟩
  · simp only [hfill, Except.ok.injEq] at hres ⊢
    exact ⟨h, k, _, stage, c, d, rfl, hfinal, hfill, hres.symm, rfl⟩
  · simp only [hfill] at hres
    exact absurd hres (by simp only [reduceCtorEq, not_false_eq_true])

/-- A cycle that ends well on its way has a horizon, a convex plan for it, a
    profile chosen after that, and leaves this profile in its buffer. -/
theorem run_ok {p : Planner R} {s : Stages R} {path : Path R} {before : SpeedSeries R}
    {x : Surroundings R} {recording : Option (Recording R)} {res : CycleResult R}
    (hres : (p.run s path before x recording).result = .ok res) :
    ∃ h k recording' stage c d, (p.horizon before.copy x).result = .ok h ∧
      (s.convex h before.copy).result = .ok k ∧
      (p.finalPlan s path h x.limit k recording').result = .ok (stage, c) ∧
      p.fillBuffer h c = (d, none) ∧ res.horizon = some h ∧
      (p.run s path before x recording).buffer = some d := by
  rcases run_ends hres with ⟨h, k, recording', stage, c, d, hfirst, hfinal, hfill, rfl, hd⟩
  rcases firstPlan_ok hfirst with ⟨hh, hk⟩
  exact ⟨h, k, recording', stage, c, d, hh, hk, hfinal, hfill, rfl, hd⟩

/-- A cycle with a buffer and a path, on the way to somewhere, begins. -/
theorem cycle_eq_run {p : Planner R} {s : Stages R} {path : Path R} {before : SpeedSeries R}
    {x : Surroundings R} {recording : Option (Recording R)} (hpath : path.points ≠ [])
    (harrived : x.arrived = false) :
    p.cycle s (some path) (some before) x recording = p.run s path before x recording := by
  rcases path with ⟨points⟩
  cases points with
  | nil => exact absurd rfl hpath
  | cons point points =>
      unfold cycle
      simp only [harrived, Bool.false_eq_true, if_false]

/-- A cycle that ends well has a buffer and a path, and has arrived or ran. -/
theorem cycle_ends {p : Planner R} {s : Stages R} {path : Option (Path R)}
    {buffer : Option (SpeedSeries R)} {x : Surroundings R} {recording : Option (Recording R)}
    {res : CycleResult R} (hres : (p.cycle s path buffer x recording).result = .ok res) :
    ∃ way before, path = some way ∧ way.points ≠ [] ∧ buffer = some before ∧
      ((x.arrived = true ∧ res = ⟨[.start, .done], false, none, none⟩) ∨
        (x.arrived = false ∧
          p.cycle s path buffer x recording = p.run s way before x recording)) := by
  unfold cycle at hres ⊢
  -- A cycle that is refused fails.
  split at hres
  · exact absurd hres (by simp [refuse])
  · exact absurd hres (by simp [refuse])
  · exact absurd hres (by simp [refuse])
  · next before way hway =>
      refine ⟨way, before, rfl, fun hpoints => ?_, rfl, ?_⟩
      · rcases way with ⟨points⟩
        exact hway (congrArg Path.mk hpoints)
      split at hres
      · next harrived => exact Or.inl ⟨harrived, (Except.ok.inj hres).symm⟩
      · next harrived =>
          rw [if_neg harrived]
          exact Or.inr ⟨Bool.eq_false_iff.mpr harrived, rfl⟩

/-- A cycle with a horizon is one that ran. -/
theorem cycle_ok {p : Planner R} {s : Stages R} {path : Option (Path R)}
    {buffer : Option (SpeedSeries R)} {x : Surroundings R} {recording : Option (Recording R)}
    {res : CycleResult R} {h : Horizon R}
    (hres : (p.cycle s path buffer x recording).result = .ok res) (hh : res.horizon = some h) :
    ∃ way before, p.cycle s path buffer x recording = p.run s way before x recording := by
  rcases cycle_ends hres with ⟨way, before, _, _, _, ⟨_, rfl⟩ | ⟨_, hrun⟩⟩
  · exact absurd hh (by simp only [reduceCtorEq, not_false_eq_true])
  · exact ⟨way, before, hrun⟩

end Planner

end JerkPlan
