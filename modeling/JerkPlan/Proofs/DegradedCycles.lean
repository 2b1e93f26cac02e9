import JerkPlan.Proofs.CycleLimits

/-!
# Cycles without their refinement

Trying to refine never does harm.

There are many ways for a refinement to come to nothing: it is not tried
because the vehicle starts too fast, a fit fails, the warm start does not fit,
the solver gives up, or its profile cannot be published. Whichever it is, the
buffer ends up as if refining had been switched off. This compares two runs of
a cycle, one by a planner that refines and one by the same planner told not to,
and all that the two have to share is the answer to the convex plan: fits and
refinement may behave in any way, and differently in each run.

The checkpoint carries the argument. Only an upgrade changes its profile, and
an upgrade is always told of.

## Main definitions

* `Planner.withoutRefinement`: The same planner, told not to refine.

## Theorems

* `Planner.finalPlan_profile`: Without an upgrade the profile is the convex
  plan.
* `Planner.finalPlan_withoutRefinement`: Told not to refine, a planner keeps
  the convex plan.
* `Planner.cycle_degraded`: The two runs leave the same buffer.
-/

namespace JerkPlan

variable {R : Type} [Scalar R]

namespace Planner

/-- The same planner, told not to refine. -/
def withoutRefinement (p : Planner R) : Planner R :=
  { p with comfort := { p.comfort with refine := false } }

variable {p : Planner R} {s s' : Stages R} {path : Path R} {h : Horizon R} {limit : SpeedLimit R}

/-- Without an upgrade the profile of a cycle is its convex plan. -/
theorem finalPlan_profile {k : KnotProfile R} {recording : Option (Recording R)}
    {stage : CycleStage} {c : Checkpoint R}
    (hc : (p.finalPlan s path h limit k recording).result = .ok (stage, c))
    (hupgraded : c.upgraded = false) : c.profile = k := by
  rcases finalPlan_cases hc with ⟨_, hk⟩ | ⟨htold, _⟩
  · exact hk
  · rw [hupgraded] at htold
    exact absurd htold Bool.false_ne_true

/-- Told not to refine, a planner keeps the convex plan wherever it gets past
    recording it. -/
theorem finalPlan_withoutRefinement (s' : Stages R) {k : KnotProfile R}
    {recording : Option (Recording R)} {a : CycleStage × Checkpoint R}
    (ha : (p.finalPlan s path h limit k recording).result = .ok a) :
    ∃ stage c, (p.withoutRefinement.finalPlan s' path h limit k recording).result =
      .ok (stage, c) ∧ c.upgraded = false := by
  unfold finalPlan at ha ⊢
  simp only at ha ⊢
  split at ha
  · exact absurd ha (by simp only [reduceCtorEq, not_false_eq_true])
  · exact ⟨_, _, rfl, rfl⟩

/-- The first plan does not depend on whether there will be a second. -/
theorem firstPlan_withoutRefinement {rough : SpeedSeries R} {x : Surroundings R}
    (recording : Option (Recording R))
    (hsame : ∀ h, (p.horizon rough x).result = .ok h →
      (s'.convex h rough).result = (s.convex h rough).result) :
    (p.withoutRefinement.firstPlan s' rough x recording).result =
        (p.firstPlan s rough x recording).result ∧
      (p.withoutRefinement.firstPlan s' rough x recording).recording =
        (p.firstPlan s rough x recording).recording := by
  -- The horizon does not read whether to refine.
  have hhorizon : p.withoutRefinement.horizon rough x = p.horizon rough x := rfl
  unfold firstPlan
  rw [hhorizon]
  rcases hh : (p.horizon rough x).result with e | h
  · simp only [hh, and_self]
  · simp only [hh, hsame h hh]
    rcases (s.convex h rough).result with e | k
    · exact ⟨rfl, rfl⟩
    · exact ⟨rfl, rfl⟩

/-- A checkpoint is published by its profile alone. -/
theorem fillBuffer_withoutRefinement {c c' : Checkpoint R} (hprofile : c'.profile = c.profile) :
    p.withoutRefinement.fillBuffer h c' = p.fillBuffer h c := by
  unfold fillBuffer
  rw [hprofile]
  rfl

theorem run_degraded {before : SpeedSeries R} {x : Surroundings R}
    {recording : Option (Recording R)}
    (hsame : ∀ h, (p.horizon before.copy x).result = .ok h →
      (s'.convex h before.copy).result = (s.convex h before.copy).result)
    {res : CycleResult R} (hres : (p.run s path before x recording).result = .ok res)
    (hupgraded : res.upgraded = false) :
    (∃ res', (p.withoutRefinement.run s' path before x recording).result = .ok res' ∧
      res'.upgraded = false ∧ res'.horizon = res.horizon) ∧
    (p.withoutRefinement.run s' path before x recording).buffer =
      (p.run s path before x recording).buffer := by
  rcases firstPlan_withoutRefinement recording hsame with ⟨hfirst', hrecording⟩
  unfold run at hres ⊢
  rcases hfirst : (p.firstPlan s before.copy x recording).result with e | ⟨h, k⟩
  · simp only [hfirst] at hres
    exact absurd hres (by simp only [reduceCtorEq, not_false_eq_true])
  rw [hfirst] at hfirst'
  -- Both runs go on from the same horizon, convex plan and recording.
  simp only [hfirst, hfirst', hrecording] at hres ⊢
  rcases hfinal : (p.finalPlan s path h x.limit k
    (p.firstPlan s before.copy x recording).recording).result with e | ⟨stage, c⟩
  · simp only [hfinal] at hres
    exact absurd hres (by simp only [reduceCtorEq, not_false_eq_true])
  rcases finalPlan_withoutRefinement s' hfinal with ⟨stage', c', hfinal', hupgraded'⟩
  simp only [hfinal, hfinal'] at hres ⊢
  rcases hfill : p.fillBuffer h c with ⟨d, _ | e⟩
  · simp only [hfill, Except.ok.injEq] at hres
    subst hres
    -- Neither checkpoint was upgraded, so both still hold the convex plan.
    have hprofile : c'.profile = c.profile := by
      rw [finalPlan_profile hfinal' hupgraded', finalPlan_profile hfinal hupgraded]
    have hfill' : p.withoutRefinement.fillBuffer h c' = (d, none) := by
      rw [fillBuffer_withoutRefinement hprofile, hfill]
    simp only [hfill']
    exact ⟨⟨_, rfl, hupgraded', rfl⟩, trivial⟩
  · simp only [hfill] at hres
    exact absurd hres (by simp only [reduceCtorEq, not_false_eq_true])

/-- A cycle that ends well but without an upgrade leaves the buffer that the
    planner would have left without trying to refine. -/
theorem cycle_degraded (p : Planner R) (s s' : Stages R) (path : Option (Path R))
    (buffer : Option (SpeedSeries R)) (x : Surroundings R) (recording : Option (Recording R))
    (hsame : ∀ before h, buffer = some before → (p.horizon before.copy x).result = .ok h →
      (s'.convex h before.copy).result = (s.convex h before.copy).result)
    {res : CycleResult R} (hres : (p.cycle s path buffer x recording).result = .ok res)
    (hupgraded : res.upgraded = false) :
    (∃ res', (p.withoutRefinement.cycle s' path buffer x recording).result = .ok res' ∧
      res'.upgraded = false ∧ res'.horizon = res.horizon) ∧
    (p.withoutRefinement.cycle s' path buffer x recording).buffer =
      (p.cycle s path buffer x recording).buffer := by
  unfold cycle at hres ⊢
  -- A cycle that is refused has no result, and an arrival is one in both runs.
  split at hres
  · exact absurd hres (by simp [refuse])
  · exact absurd hres (by simp [refuse])
  · exact absurd hres (by simp [refuse])
  · next before way _ =>
      split at hres
      · next harrived =>
          rw [Except.ok.injEq] at hres
          simp only [if_pos harrived]
          exact ⟨⟨_, rfl, rfl, by rw [← hres]⟩, trivial⟩
      · next harrived =>
          simp only [if_neg harrived]
          exact run_degraded (hsame before · rfl) hres hupgraded

end Planner

/-! A ride that stalls -/

/-- A cycle of a planner on the open road whose refinement breaks down. -/
def stalledRide (p : Planner Rat) : CycleReport Rat :=
  p.cycle
    { p.stages (.knowing ⟨[0, 1], [1, 1], [0, 0]⟩) fun _ _ => .brokeDown "stalled" with
      curvature := fun _ => pure (.ofStart ⟨0, 0, 0⟩)
      limit := fun _ => pure (.ofStart ⟨5, 0, 0⟩) }
    (some ⟨[⟨0, 0, 0, 0, 0, 0, 0⟩]⟩) (some ⟨[⟨0, 0, 1, 0, 0⟩, ⟨10, 10, 1, 0, 0⟩]⟩) openRoad none

/-- The stalled ride publishes what it would have published unrefined. -/
theorem Planner.cycle_degraded_stalled : ∃ res res', (stalledRide rider).result = .ok res ∧
    res.upgraded = false ∧ res.reason = some refinementFailed ∧
    (stalledRide rider.withoutRefinement).result = .ok res' ∧
    (stalledRide rider.withoutRefinement).buffer = (stalledRide rider).buffer := by
  have hstalled : (match (stalledRide rider).result with
      | .ok res => !res.upgraded && res.reason == some refinementFailed
      | .error _ => false) = true := by decide +kernel
  split at hstalled
  · next res hres =>
      rw [Bool.and_eq_true, Bool.not_eq_true', beq_iff_eq] at hstalled
      rcases rider.cycle_degraded _ _ _ _ _ none (fun _ _ _ _ => rfl) hres hstalled.1 with
        ⟨⟨res', hres', _⟩, hbuffer⟩
      exact ⟨res, res', hres, hstalled.1, hstalled.2, hres', hbuffer⟩
  · exact absurd hstalled Bool.false_ne_true

end JerkPlan
