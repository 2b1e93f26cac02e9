import JerkPlan.Proofs.CycleCompletes

/-!
# What a cycle tells

The result of a cycle agrees with what the cycle did.

A result is put together piece by piece: the stages from the way through the
cycle, the upgrade and its reason from the checkpoint, the buffer from the
profile that the checkpoint has in the end. Each piece could tell its own
story. They tell the same one, because each way to end a refinement leaves a
checkpoint of one of two kinds, either kept for a reason or upgraded without
one. `secondPlan_ends` and `finalPlan_ends` are the list of these ways, and
what is said here of the pieces is read off the list.

The theorem asks nothing of the solvers or of the settings, and holds in any
arithmetic. It speaks of the cycles that give a result; that they do is a
theorem of its own.

## Main definitions

* `Planner.Agrees`: The pieces of a result agree.

## Theorems

* `Planner.fillBuffer_shows`: A buffer that is filled shows the profile.
* `Planner.run_agrees`: A cycle on its way.
* `Planner.cycle_agrees`: Any cycle.
-/

namespace JerkPlan

variable {R : Type} [Scalar R]

namespace Planner

variable {p : Planner R} {s : Stages R} {path : Path R} {h : Horizon R} {limit : SpeedLimit R}
  {x : Surroundings R} {recording : Option (Recording R)}

/-- The pieces of the result of a cycle that has made a convex plan `k` for its
    horizon `h` and leaves `d` in its buffer. The stages are all there, and tell
    of a refinement exactly when one was asked for and made sense. An upgrade is
    told exactly when there is no reason against it, and only after trying. The
    buffer shows the refined profile if there was an upgrade, and else the convex
    plan. -/
structure Agrees (p : Planner R) (s : Stages R) (path : Path R) (limit : SpeedLimit R)
    (h : Horizon R) (k : KnotProfile R) (res : CycleResult R) (d : SpeedSeries R) : Prop where
  stages : res.stages = [.start, .boundsBuilt, .convexSolved, .refinementAttempted, .done] ∨
    res.stages = [.start, .boundsBuilt, .convexSolved, .refinementSkipped, .done]
  attempted : CycleStage.refinementAttempted ∈ res.stages ↔
    p.comfort.refine = true ∧ (startsWithinLimit h limit).result = .ok true
  upgraded : res.upgraded = true ↔ res.reason = none
  tried : res.upgraded = true → CycleStage.refinementAttempted ∈ res.stages
  refined : res.upgraded = true → ∃ kappa bound problem profile,
    (s.curvature path).result = .ok kappa ∧ (s.limit limit).result = .ok bound ∧
      (p.refinement h k kappa bound).result = .ok problem ∧
      (s.refine problem).2.result = .ok profile ∧ d.Shows profile
  kept : res.upgraded = false → d.Shows k

/-- A buffer that is filled shows the profile of the checkpoint. -/
theorem fillBuffer_shows {c : Checkpoint R} {d : SpeedSeries R}
    (hd : p.fillBuffer h c = (d, none)) : d.Shows c.profile := by
  rcases fillBuffer_ok hd with ⟨e, hpublish, hfill⟩
  exact shows_of_publish hpublish hfill

/-- A cycle on its way agrees with itself. -/
theorem run_agrees {before : SpeedSeries R} {res : CycleResult R}
    (hres : (p.run s path before x recording).result = .ok res) :
    ∃ h k d, (p.horizon before.copy x).result = .ok h ∧
      (s.convex h before.copy).result = .ok k ∧ res.horizon = some h ∧
      (p.run s path before x recording).buffer = some d ∧
      p.Agrees s path x.limit h k res d := by
  rcases run_ends hres with ⟨h, k, recording', stage, c, d, hfirst, hfinal, hfill, rfl, hd⟩
  rcases firstPlan_ok hfirst with ⟨hh, hk⟩
  have hshows := fillBuffer_shows hfill
  refine ⟨h, k, d, hh, hk, rfl, hd, ?_⟩
  rcases finalPlan_ends hfinal with
    ⟨htried, rfl, recording'', hsecond⟩ | ⟨hidle, rfl, reason, rfl⟩
  · have hattempted : CycleStage.refinementAttempted ∈
        [CycleStage.start, .boundsBuilt, .convexSolved, .refinementAttempted, .done] :=
      CycleStage.attempted_mem_iff.mpr rfl
    -- The checkpoint is kept for a reason, or taken over without one.
    rcases secondPlan_ends hsecond with
      ⟨reason, rfl⟩ | ⟨profile, kappa, bound, problem, hkappa, hbound, hproblem, hprofile, _, _, rfl⟩
    · refine ⟨Or.inl rfl, ⟨fun _ => htried, fun _ => hattempted⟩, ?_, fun _ => hattempted, ?_,
        fun _ => hshows⟩
      · exact ⟨fun hup => absurd hup Bool.false_ne_true,
          fun hnone => absurd hnone (Option.some_ne_none reason)⟩
      · exact fun hup => absurd hup Bool.false_ne_true
    · refine ⟨Or.inl rfl, ⟨fun _ => htried, fun _ => hattempted⟩, ⟨fun _ => rfl, fun _ => rfl⟩,
        fun _ => hattempted, fun _ => ?_, ?_⟩
      · exact ⟨kappa, bound, problem, profile, hkappa, hbound, hproblem, hprofile, hshows⟩
      · exact fun hdown => absurd hdown.symm Bool.false_ne_true
  · refine ⟨Or.inr rfl, ⟨fun hmem => ?_, fun htried => absurd htried hidle⟩, ?_, ?_, ?_,
      fun _ => hshows⟩
    · have hstage := CycleStage.attempted_mem_iff.mp hmem
      exact absurd hstage (by simp only [reduceCtorEq, not_false_eq_true])
    · exact ⟨fun hup => absurd hup Bool.false_ne_true,
        fun hnone => absurd hnone (Option.some_ne_none reason)⟩
    · exact fun hup => absurd hup Bool.false_ne_true
    · exact fun hup => absurd hup Bool.false_ne_true

/-- A cycle that gives a result had a buffer and a path. It tells that it only
    began and ended exactly when the journey was over. Otherwise there were a
    horizon and a convex plan for it, and stages, upgrade, reason and buffer
    agree about what became of them. -/
theorem cycle_agrees {path : Option (Path R)} {buffer : Option (SpeedSeries R)}
    {res : CycleResult R} (hres : (p.cycle s path buffer x recording).result = .ok res) :
    ∃ way before, path = some way ∧ way.points ≠ [] ∧ buffer = some before ∧
      (res.stages = [.start, .done] ↔ x.arrived = true) ∧
      (x.arrived = false → ∃ h k d, (p.horizon before.copy x).result = .ok h ∧
        (s.convex h before.copy).result = .ok k ∧ res.horizon = some h ∧
        (p.cycle s path buffer x recording).buffer = some d ∧
        p.Agrees s way x.limit h k res d) := by
  rcases cycle_ends hres with ⟨way, before, rfl, hpoints, rfl, ⟨harrived, rfl⟩ | ⟨harrived, hrun⟩⟩
  · refine ⟨way, before, rfl, hpoints, rfl, ⟨fun _ => harrived, fun _ => rfl⟩, fun hnot => ?_⟩
    rw [harrived] at hnot
    exact absurd hnot.symm Bool.false_ne_true
  rw [hrun] at hres
  rcases run_agrees hres with ⟨h, k, d, hh, hk, hhorizon, hd, hagrees⟩
  refine ⟨way, before, rfl, hpoints, rfl, ⟨fun hstages => ?_, fun hyes => ?_⟩, fun _ => ?_⟩
  · -- Five stages are not two.
    rcases hagrees.stages with hfive | hfive
    · rw [hfive] at hstages
      exact absurd (congrArg List.length hstages) (by decide)
    · rw [hfive] at hstages
      exact absurd (congrArg List.length hstages) (by decide)
  · rw [harrived] at hyes
    exact absurd hyes Bool.false_ne_true
  · rw [hrun]
    exact ⟨h, k, d, hh, hk, hhorizon, hd, hagrees⟩

end Planner

/-- The ride tells of its upgrade, gives no reason against it, and shows a
    refined profile. -/
theorem Planner.cycle_agrees_ride : ∃ res d profile, ride.result = .ok res ∧
    res.stages = [.start, .boundsBuilt, .convexSolved, .refinementAttempted, .done] ∧
    res.reason = none ∧ ride.buffer = some d ∧ d.Shows profile := by
  have htaken : ride.refined?.isSome = true := by decide +kernel
  rcases Option.isSome_iff_exists.mp htaken with ⟨⟨res, h⟩, hride⟩
  rcases CycleReport.of_refined? hride with ⟨hres, hupgraded, _, _⟩
  rcases cycle_agrees hres with ⟨_, _, _, _, _, _, hagrees⟩
  rcases hagrees rfl with ⟨_, _, d, _, _, _, hd, hagrees⟩
  rcases hagrees.refined hupgraded with ⟨_, _, _, profile, _, _, _, _, hshows⟩
  refine ⟨res, d, profile, hres, ?_, hagrees.upgraded.mp hupgraded, hd, hshows⟩
  rcases hagrees.stages with hstages | hstages
  · exact hstages
  · have htried := hagrees.tried hupgraded
    rw [hstages] at htried
    exact absurd htried (by decide)

end JerkPlan
