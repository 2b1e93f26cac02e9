import JerkPlan.Proofs.KnotRows
import JerkPlan.Proofs.CycleSteps

/-!
# Limits of a plan

Both plans of a cycle keep the limits of its horizon.

The convex plan and its refinement are two programs written apart. One bounds
the change of acceleration over a step, the other the jerk; one has its start
as rows, the other replaces the bounds of the first knot by the start, and so
forgets the limits there. `Horizon.Allows` is what they have in common, and
`ConvexFor.allows` and `RefinedFor.allows` say that each of them asks for at
least this. For the refinement the first knot is safe only because a convex plan from the same
start has been accepted before.

## Main definitions

* `Horizon.AllowsAt`, `Horizon.Allows`: States within the limits of a horizon.
* `Horizon.Moderate`: Numbers that are not read as infinite.
* `ConvexFor`: What a convex problem takes from its horizon.
* `profileAt`: The profile of a point.
* `RefinedFor`: What a refinement takes from its horizon.

## Theorems

* `convexProblem_for`: The problem of the convex plan takes all limits.
* `ConvexFor.start_eq`: The convex plan begins at the start.
* `ConvexFor.allows`: The convex plan keeps the limits.
* `RefinementProblem.variableBounds_at`: The bounds of a refinement's variables.
* `RefinedFor.start_eq`: The refinement begins at the start.
* `RefinedFor.allows`: The refinement keeps the limits.
* `Planner.horizon_ok`: What a horizon takes from the settings.
* `Planner.refinement_for`: A planner's refinement takes all limits.
-/

namespace JerkPlan

variable {R : Type} [ExactScalar R]

/-- A state is within the limits of a horizon at a knot. -/
structure Horizon.AllowsAt (h : Horizon R) (i : Nat) (m : Motion R) : Prop where
  place : ∃ b, h.corridor.hard[i]? = some b ∧ b.1 ≤ m.p ∧ m.p ≤ b.2
  speed : 0 ≤ m.v ∧ m.v ≤ h.topSpeed
  acceleration : h.minAcceleration ≤ m.a ∧ m.a ≤ h.maxAcceleration

/-- States at the knots are within the limits of a horizon, and each follows
    from the one before it by constant jerk within its limits. -/
structure Horizon.Allows (h : Horizon R) (s : Nat → Motion R) : Prop where
  knots : ∀ i, i < h.knots.toNat → h.AllowsAt i (s i)
  jerk : ∀ i, i + 1 < h.knots.toNat →
    h.minJerk ≤ ((s (i + 1)).a - (s i).a) / h.step ∧
      ((s (i + 1)).a - (s i).a) / h.step ≤ h.maxJerk
  linked : ∀ i, i + 1 < h.knots.toNat → (s i).Linked h.step (s (i + 1))

/-- No number that the convex plan takes from a horizon is so large that a
    solver would read it as infinite. -/
structure Horizon.Moderate (h : Horizon R) : Prop where
  start : ∀ x ∈ h.start, |x| ≤ Endpoint.huge
  corridor : ∀ b ∈ h.corridor.hard, |b.1| ≤ Endpoint.huge ∧ |b.2| ≤ Endpoint.huge
  speed : |greater h.legalSpeed (h.speed + startSpeedMargin)| ≤ Endpoint.huge
  acceleration : |h.minAcceleration| ≤ Endpoint.huge ∧ |h.maxAcceleration| ≤ Endpoint.huge
  jerk : |h.minJerk * h.step| ≤ Endpoint.huge ∧ |h.maxJerk * h.step| ≤ Endpoint.huge

/-- The states at the knots decide. -/
theorem Horizon.Allows.congr {h : Horizon R} {s s' : Nat → Motion R} (hs : h.Allows s)
    (heq : ∀ i, i < h.knots.toNat → s' i = s i) : h.Allows s' := by
  constructor
  · intro i hi
    rw [heq i hi]
    exact hs.knots i hi
  · intro i hi
    rw [heq i (by omega), heq (i + 1) hi]
    exact hs.jerk i hi
  · intro i hi
    rw [heq i (by omega), heq (i + 1) hi]
    exact hs.linked i hi

/-! The convex plan -/

/-- What a problem takes from the horizon of its cycle. -/
structure ConvexFor (h : Horizon R) (q : KnotProblem R) : Prop where
  two_le_knots : 2 ≤ h.knots
  step_pos : 0 < h.step
  length_hard : h.corridor.hard.length = h.knots.toNat
  knots : q.knots = h.knots.toNat
  step : q.step = h.step
  start : q.start = h.start
  pBounds : q.pBounds = h.corridor.hard.map KnotProblem.finitePair
  vBounds : q.vBounds = List.replicate h.knots.toNat
    (KnotProblem.finitePair (0, greater h.legalSpeed (h.speed + startSpeedMargin)))
  aBounds : q.aBounds = List.replicate h.knots.toNat
    (KnotProblem.finitePair (h.minAcceleration, h.maxAcceleration))
  jerkBounds : q.jerkBounds = KnotProblem.finitePair (h.minJerk, h.maxJerk)

/-- A problem of the convex plan takes all limits of its horizon, and there is
    none without two knots, a step, and a hard interval for each knot. -/
theorem convexProblem_for {h : Horizon R} {rough : SpeedSeries R} {p : PlanSettings R}
    {q : KnotProblem R} (hq : (convexProblem h rough p).result = .ok q) : ConvexFor h q := by
  unfold convexProblem at hq
  rcases Outcome.bind_ok_iff.mp hq with ⟨q₀, hmake, hq⟩
  rcases Outcome.bind_ok_iff.mp hq with ⟨bounds, hsettle, hq⟩
  rcases KnotProblem.make_checked hmake with ⟨hknots, hstep⟩
  rw [Outcome.result_of, KnotProblem.make_eq hknots hstep, Except.ok.injEq] at hmake
  subst hmake
  have hbounds : bounds = h.corridor.hard := settle_pairs hsettle
  have hlength : bounds.length = h.knots.toNat := length_settle hsettle
  subst hbounds
  -- a reference changes none of this
  split at hq
  · rcases Outcome.bind_ok_iff.mp hq with ⟨targets, _, hq⟩
    rw [Outcome.result_of] at hq
    rcases KnotProblem.withReference_eq hq with ⟨r, rfl⟩
    exact ⟨hknots, hstep, hlength, rfl, rfl, rfl, rfl, rfl, rfl, rfl⟩
  · rcases Outcome.bind_ok_iff.mp hq with ⟨_, _, hq⟩
    rw [Outcome.result_pure, Except.ok.injEq] at hq
    rw [← hq]
    exact ⟨hknots, hstep, hlength, rfl, rfl, rfl, rfl, rfl, rfl, rfl⟩

theorem ConvexFor.wellFormed {h : Horizon R} {q : KnotProblem R} (hq : ConvexFor h q) :
    q.WellFormed := by
  have hknots := hq.two_le_knots
  constructor
  · rw [hq.knots]
    omega
  · rw [hq.step]
    exact hq.step_pos
  · rw [hq.start]
    rfl
  · rw [hq.pBounds, hq.knots, List.length_map, hq.length_hard]
  · rw [hq.vBounds, hq.knots, List.length_replicate]
  · rw [hq.aBounds, hq.knots, List.length_replicate]

/-- A value between two clipped ends of moderate size. -/
theorem between_of_clip {b : R × R} {x : R} (hl : |b.1| ≤ Endpoint.huge)
    (hu : |b.2| ≤ Endpoint.huge)
    (h : (KnotProblem.finitePair b).1.clip ≤ x ∧ x ≤ (KnotProblem.finitePair b).2.clip) :
    b.1 ≤ x ∧ x ≤ b.2 := by
  rw [KnotProblem.finitePair, Endpoint.clip_finite (neg_le_of_abs_le hl) (le_of_abs_le hl),
    Endpoint.clip_finite (neg_le_of_abs_le hu) (le_of_abs_le hu)] at h
  exact h

/-- What the rows of a convex problem ask, read as they are. -/
theorem ConvexFor.eachRow {h : Horizon R} {q : KnotProblem R} (hq : ConvexFor h q) {z : Nat → R}
    (hz : q.constraints.Hold z) : q.EachRow (fun l u x => l ≤ x ∧ x ≤ u) z :=
  (KnotProblem.hold_constraints_iff hq.wellFormed).mp hz

/-- The convex plan begins at the start. -/
theorem ConvexFor.start_eq {h : Horizon R} {q : KnotProblem R} (hq : ConvexFor h q)
    (hm : h.Moderate) {z : Nat → R} (hz : q.constraints.Hold z) :
    stateAt h.knots.toNat z 0 = ⟨h.place, h.speed, h.acceleration⟩ := by
  have hrow {x y : R} (hx : x ∈ h.start)
      (hy : (Endpoint.finite x).clip ≤ y ∧ y ≤ (Endpoint.finite x).clip) : y = x := by
    have hsmall := hm.start x hx
    -- Both bounds of the row are the same number.
    rw [Endpoint.clip_finite (neg_le_of_abs_le hsmall) (le_of_abs_le hsmall)] at hy
    exact le_antisymm hy.2 hy.1
  rcases (hq.eachRow hz).start h.place h.speed h.acceleration (by rw [hq.start]; rfl) with
    ⟨hp, hv, ha⟩
  rw [hq.knots] at hp hv ha
  rcases hs : stateAt h.knots.toNat z 0 with ⟨p, v, a⟩
  rw [hs] at hp hv ha
  rw [Motion.mk.injEq]
  exact ⟨hrow (by simp [Horizon.start]) hp, hrow (by simp [Horizon.start]) hv,
    hrow (by simp [Horizon.start]) ha⟩

/-- The convex plan keeps the limits. -/
theorem ConvexFor.allows {h : Horizon R} {q : KnotProblem R} (hq : ConvexFor h q)
    (hm : h.Moderate) (htop : greater h.legalSpeed (h.speed + startSpeedMargin) ≤ h.topSpeed)
    {z : Nat → R} (hz : q.constraints.Hold z) : h.Allows (stateAt h.knots.toNat z) := by
  have hrows := hq.eachRow hz
  have hzero : |(0 : R)| ≤ Endpoint.huge := by
    rw [abs_zero]
    exact Endpoint.huge_pos.le
  constructor
  · intro i hi
    rcases hget : h.corridor.hard[i]? with _ | b
    · rw [List.getElem?_eq_none_iff, hq.length_hard] at hget
      omega
    have hplace := hrows.values i _ (by rw [hq.pBounds, List.getElem?_map, hget]; rfl)
    have hspeed := hrows.slopes i _ (by rw [hq.vBounds, List.getElem?_replicate, if_pos hi])
    have hbend := hrows.bends i _ (by rw [hq.aBounds, List.getElem?_replicate, if_pos hi])
    rw [hq.knots] at hplace hspeed hbend
    have hends := hm.corridor _ (List.mem_of_getElem? hget)
    constructor
    · exact ⟨b, hget, between_of_clip hends.1 hends.2 hplace⟩
    · have hv := between_of_clip hzero hm.speed hspeed
      exact ⟨hv.1, hv.2.trans htop⟩
    · exact between_of_clip hm.acceleration.1 hm.acceleration.2 hbend
  · -- The rows bound the change over a step, the horizon the jerk.
    intro i hi
    have hchange := hrows.changes i (by rw [hq.knots]; exact hi)
    rw [hq.jerkBounds, hq.step, hq.knots] at hchange
    have hscaled := between_of_clip (b := (h.minJerk * h.step, h.maxJerk * h.step)) hm.jerk.1
      hm.jerk.2 hchange
    rw [le_div_iff₀ hq.step_pos, div_le_iff₀ hq.step_pos]
    exact hscaled
  · intro i hi
    have hlinked := KnotProblem.linked_of_hold hq.wellFormed hz (by rw [hq.knots]; exact hi)
    rw [hq.step, hq.knots] at hlinked
    exact hlinked

/-! The refinement -/

/-- The profile of a point, whose first variables are the values at all `n`
    knots, then the first derivatives, then the second ones. -/
def profileAt {R : Type} (n : Nat) (x : Nat → R) : KnotProfile R :=
  ⟨(List.range n).map x, (List.range n).map fun i => x (n + i),
    (List.range n).map fun i => x (2 * n + i)⟩

theorem shaped_profileAt {R : Type} (n : Nat) (x : Nat → R) : (profileAt n x).Shaped n := by
  constructor <;> simp only [profileAt, List.length_map, List.length_range]

theorem stateAt_profileAt {n i : Nat} (hi : i < n) (x : Nat → R) :
    stateAt n (profileAt n x).point i = stateAt n x i := by
  rcases stateAt_point (shaped_profileAt n x) hi with ⟨hp, hv, ha⟩
  simp only [profileAt, List.getElem?_map, List.getElem?_range hi, Option.map_some,
    Option.some.injEq] at hp hv ha
  rw [stateAt, stateAt, Motion.mk.injEq]
  exact ⟨hp.symm, hv.symm, ha.symm⟩

/-- What a refinement takes from the horizon of its cycle. -/
structure RefinedFor (h : Horizon R) (r : RefinementProblem R) : Prop where
  horizon : r.horizon = h
  hard : r.hard = h.corridor.hard
  length_hard : r.hard.length = r.knots
  soft : r.soft = h.corridor.soft

namespace RefinementProblem

theorem length_fixFirst {R : Type} (x : R) (bounds : List (Endpoint R × Endpoint R)) :
    (fixFirst x bounds).length = bounds.length := by
  cases bounds with
  | nil => rfl
  | cons b bounds => rfl

theorem getElem?_fixFirst_zero {R : Type} (x : R) {bounds : List (Endpoint R × Endpoint R)}
    (h : 0 < bounds.length) : (fixFirst x bounds)[0]? = some (.finite x, .finite x) := by
  cases bounds with
  | nil => exact absurd h (Nat.lt_irrefl 0)
  | cons b bounds => rfl

theorem getElem?_fixFirst_succ {R : Type} (x : R) (bounds : List (Endpoint R × Endpoint R))
    (i : Nat) : (fixFirst x bounds)[i + 1]? = bounds[i + 1]? := by
  cases bounds with
  | nil => rfl
  | cons b bounds => rfl

/-- The bounds of all variables, block by block. -/
theorem variableBounds_at {r : RefinementProblem R} (hlength : r.hard.length = r.knots) {i : Nat}
    (hi : i < r.knots) :
    r.variableBounds[i]? = (fixFirst r.horizon.place
        (r.hard.map fun b => (.finite b.1, .finite b.2)))[i]? ∧
      r.variableBounds[r.knots + i]? = (fixFirst r.horizon.speed
        (List.replicate r.knots (.finite 0, .finite r.horizon.topSpeed)))[i]? ∧
      r.variableBounds[2 * r.knots + i]? = (fixFirst r.horizon.acceleration
        (List.replicate r.knots
          (.finite r.horizon.minAcceleration, .finite r.horizon.maxAcceleration)))[i]? := by
  have hplaces : (fixFirst r.horizon.place
      (r.hard.map fun b => ((.finite b.1 : Endpoint R), (.finite b.2 : Endpoint R)))).length =
      r.knots := by
    rw [length_fixFirst, List.length_map, hlength]
  have hspeeds : (fixFirst r.horizon.speed (List.replicate r.knots
      ((.finite 0 : Endpoint R), (.finite r.horizon.topSpeed : Endpoint R)))).length =
      r.knots := by
    rw [length_fixFirst, List.length_replicate]
  have haccelerations : (fixFirst r.horizon.acceleration (List.replicate r.knots
      ((.finite r.horizon.minAcceleration : Endpoint R),
        (.finite r.horizon.maxAcceleration : Endpoint R)))).length = r.knots := by
    rw [length_fixFirst, List.length_replicate]
  unfold variableBounds
  refine ⟨?_, ?_, ?_⟩
  · rw [List.append_assoc, List.append_assoc, List.getElem?_append_left (by omega)]
  · rw [List.append_assoc, List.append_assoc, List.getElem?_append_right (by omega), hplaces,
      Nat.add_sub_cancel_left, List.getElem?_append_left (by omega)]
  · have hboth : 2 * r.knots + i - r.knots - r.knots = i := by omega
    rw [List.append_assoc, List.append_assoc, List.getElem?_append_right (by omega), hplaces,
      List.getElem?_append_right (by omega), hspeeds, hboth,
      List.getElem?_append_left (by omega)]

/-- A program is that of some functions of curvature and speed limit. -/
theorem program_eq_programWith {r : RefinementProblem R} {program : RefinementProgram R}
    (h : r.program = .ok program) : ∃ kappa limit, program = r.programWith kappa limit := by
  rcases bind_eq_ok_iff.mp h with ⟨⟨kappa, limit⟩, _, hprogram⟩
  exact ⟨kappa.eval, limit.eval, (Except.ok.inj hprogram).symm⟩

/-- A point that keeps the bounds keeps those of each variable. -/
theorem within_variableBounds {r : RefinementProblem R} {kappa limit : R → R} {x : Nat → R}
    (hx : (r.programWith kappa limit).Feasible x) {j : Nat} {l u : R}
    (h : r.variableBounds[j]? = some (.finite l, .finite u)) : l ≤ x j ∧ x j ≤ u :=
  hx.1 ((.finite l, .finite u), j) (List.mk_mem_zipIdx_iff_getElem?.mpr h)

/-- A point that keeps the rows keeps those of each step. -/
theorem within_rows {r : RefinementProblem R} {kappa limit : R → R} {x : Nat → R}
    (hx : (r.programWith kappa limit).Feasible x) {i : Nat} (hi : i + 1 < r.knots) :
    (r.horizon.minJerk ≤ (r.jerkRow i).value x ∧ (r.jerkRow i).value x ≤ r.horizon.maxJerk) ∧
      (r.placeRow i).value x = 0 ∧ (r.speedRow i).value x = 0 := by
  have hstep : i ∈ List.range (r.knots - 1) := List.mem_range.mpr (by omega)
  have hjerk := hx.2 (r.jerkRow i) (by
    simp only [programWith, rows, List.mem_append, List.mem_map]
    exact .inl (.inl (.inl (.inl (.inr ⟨i, hstep, rfl⟩)))))
  have hplace := hx.2 (r.placeRow i) (by
    simp only [programWith, rows, List.mem_append, List.mem_map]
    exact .inl (.inl (.inl (.inr ⟨i, hstep, rfl⟩))))
  have hspeed := hx.2 (r.speedRow i) (by
    simp only [programWith, rows, List.mem_append, List.mem_map]
    exact .inl (.inl (.inr ⟨i, hstep, rfl⟩)))
  exact ⟨hjerk, le_antisymm hplace.2 hplace.1, le_antisymm hspeed.2 hspeed.1⟩

end RefinementProblem

open RefinementProblem in
/-- At the first knot a refinement stays at the start. -/
theorem RefinedFor.start_eq {h : Horizon R} {r : RefinementProblem R} (hr : RefinedFor h r)
    (hn : 0 < h.knots.toNat) {kappa limit : R → R} {x : Nat → R}
    (hx : (r.programWith kappa limit).Feasible x) :
    stateAt h.knots.toNat x 0 = ⟨h.place, h.speed, h.acceleration⟩ := by
  have hknots : r.knots = h.knots.toNat := by rw [knots, hr.horizon]
  rcases variableBounds_at hr.length_hard (hknots ▸ hn) with ⟨hp, hv, ha⟩
  rw [getElem?_fixFirst_zero _ (by rw [List.length_map, hr.length_hard]; omega)] at hp
  rw [getElem?_fixFirst_zero _ (by rw [List.length_replicate]; omega)] at hv ha
  have hplace := within_variableBounds hx hp
  have hspeed := within_variableBounds hx hv
  have hacceleration := within_variableBounds hx ha
  rw [hr.horizon] at hplace hspeed hacceleration
  rw [hknots] at hspeed hacceleration
  rw [stateAt, Motion.mk.injEq]
  exact ⟨le_antisymm hplace.2 hplace.1, le_antisymm hspeed.2 hspeed.1,
    le_antisymm hacceleration.2 hacceleration.1⟩

open RefinementProblem in
/-- The refinement keeps the limits, if they allow its start. -/
theorem RefinedFor.allows {h : Horizon R} {r : RefinementProblem R} (hr : RefinedFor h r)
    (hn : 0 < h.knots.toNat) (hstart : h.AllowsAt 0 ⟨h.place, h.speed, h.acceleration⟩)
    {kappa limit : R → R} {x : Nat → R} (hx : (r.programWith kappa limit).Feasible x) :
    h.Allows (stateAt h.knots.toNat x) := by
  have hknots : r.knots = h.knots.toNat := by rw [knots, hr.horizon]
  constructor
  · intro i hi
    cases i with
    | zero =>
        -- its own bounds say nothing of the limits here
        rw [hr.start_eq hn hx]
        exact hstart
    | succ i =>
        rcases variableBounds_at hr.length_hard (hknots ▸ hi) with ⟨hp, hv, ha⟩
        rw [getElem?_fixFirst_succ, List.getElem?_map, hr.hard] at hp
        rw [getElem?_fixFirst_succ, List.getElem?_replicate, if_pos (hknots ▸ hi)] at hv ha
        rcases hget : h.corridor.hard[i + 1]? with _ | b
        · rw [List.getElem?_eq_none_iff, ← hr.hard, hr.length_hard] at hget
          omega
        rw [hget, Option.map_some] at hp
        have hplace := within_variableBounds hx hp
        have hspeed := within_variableBounds hx hv
        have hacceleration := within_variableBounds hx ha
        rw [hr.horizon, hknots] at hspeed hacceleration
        exact ⟨⟨b, hget, hplace⟩, hspeed, hacceleration⟩
  · intro i hi
    rcases within_rows hx (hknots ▸ hi) with ⟨hjerk, _⟩
    simp only [jerkRow, hr.horizon, hknots] at hjerk
    exact hjerk
  · intro i hi
    rcases within_rows hx (hknots ▸ hi) with ⟨_, hplace, hspeed⟩
    simp only [placeRow, speedRow, hr.horizon, hknots, half_eq, Nat.cast_ofNat] at hplace hspeed
    constructor
    · simp only [stateAt, ← Nat.add_assoc]
      linarith
    · simp only [stateAt, ← Nat.add_assoc]
      linarith

/-! Horizons and refinements of a planner -/

namespace Planner

/-- What a horizon takes from the settings and the surroundings. -/
theorem horizon_ok {p : Planner R} {rough : SpeedSeries R} {x : Surroundings R} {h : Horizon R}
    (hh : (p.horizon rough x).result = .ok h) :
    greater h.legalSpeed (h.speed + startSpeedMargin) ≤ h.topSpeed ∧
      h.minJerk = -magnitude p.comfort.jerkLower ∧ h.maxJerk = p.comfort.jerkUpper := by
  rcases horizon_made hh with ⟨knots, corridor, _, _, _, rfl⟩
  have hmargin : (startSpeedMargin : R) ≤ topSpeedMargin := by
    rw [startSpeedMargin, topSpeedMargin, decimal_eq]
    norm_num
  refine ⟨?_, rfl, rfl⟩
  rw [greater_eq_max, greater_eq_max]
  exact max_le_max_left _ (add_le_add_right hmargin _)

/-- The soft corridor is taken, and changes no other limit. -/
theorem softened_for {R : Type} {p : Planner R} {h : Horizon R} {q r : RefinementProblem R}
    (hhorizon : q.horizon = h) (hhard : q.hard = h.corridor.hard)
    (hlength : q.hard.length = q.knots) (hnone : q.soft = [])
    (hr : (p.softened h q).result = .ok r) : RefinedFor h r := by
  unfold softened at hr
  split at hr
  · next hempty =>
      rw [Outcome.result_pure, Except.ok.injEq] at hr
      rw [← hr]
      exact ⟨hhorizon, hhard, hlength, by rw [hnone, List.isEmpty_iff.mp hempty]⟩
  · rcases Outcome.bind_ok_iff.mp hr with ⟨q', hsoft, hr⟩
    rcases ite_error_ok hsoft with ⟨_, hsoft⟩
    rw [Except.ok.injEq] at hsoft
    rw [Outcome.result_pure, Except.ok.injEq] at hr
    rw [← hr, ← hsoft]
    exact ⟨hhorizon, hhard, hlength, rfl⟩

/-- A warm start changes no limit. -/
theorem warmed_for {R : Type} {p : Planner R} {h : Horizon R} {plan : KnotProfile R}
    {q r : RefinementProblem R} (hq : RefinedFor h q) (hr : (p.warmed plan q).result = .ok r) :
    RefinedFor h r := by
  unfold warmed at hr
  split at hr
  · unfold RefinementProblem.withWarmStart at hr
    split at hr
    · exact absurd hr (by simp)
    · rw [Outcome.result_pure, Except.ok.injEq] at hr
      rw [← hr]
      exact { hq with }
  · rw [Outcome.result_pure, Except.ok.injEq] at hr
    rw [← hr]
    exact hq

/-- An aim changes no limit. -/
theorem aimed_for {R : Type} {p : Planner R} {h : Horizon R} {plan : KnotProfile R}
    {q r : RefinementProblem R} (hq : RefinedFor h q) (hr : p.aimed h plan q = .ok r) :
    RefinedFor h r := by
  have hset (places : List R) (hplaces : q.withReference places = .ok r) : RefinedFor h r := by
    rcases ite_error_ok hplaces with ⟨_, hplaces⟩
    rw [Except.ok.injEq] at hplaces
    rw [← hplaces]
    exact { hq with }
  unfold aimed at hr
  split at hr
  · exact hset _ hr
  · exact hset _ hr

/-- The refinement takes all limits of its horizon. -/
theorem refinement_for {p : Planner R} {h : Horizon R} {plan : KnotProfile R}
    {curvature limit : JerkCurve R} {r : RefinementProblem R}
    (hr : (p.refinement h plan curvature limit).result = .ok r) : RefinedFor h r := by
  unfold refinement at hr
  rcases Outcome.bind_ok_iff.mp hr with ⟨q₁, hhard, hr⟩
  rcases Outcome.bind_ok_iff.mp hr with ⟨q₂, hsoft, hr⟩
  rcases Outcome.bind_ok_iff.mp hr with ⟨q₃, hwarm, hr⟩
  rcases Outcome.bind_ok_iff.mp hr with ⟨q₄, haim, hr⟩
  rcases ite_error_ok hhard with ⟨hlength, hq₁⟩
  rw [Except.ok.injEq] at hq₁
  have hcount : q₁.hard.length = q₁.knots := by
    rw [← hq₁]
    change h.corridor.hard.length = h.knots.toNat
    have hsize : (h.corridor.hard.length : Int) = h.knots := not_not.mp hlength
    omega
  have hsofter : RefinedFor h q₂ :=
    softened_for (by rw [← hq₁]; rfl) (by rw [← hq₁]) hcount (by rw [← hq₁]; rfl) hsoft
  have hcurves : RefinedFor h
      { q₂ with curvature := some curvature, limit := some limit } := { hsofter with }
  have haimed := aimed_for (warmed_for hcurves hwarm) haim
  rw [Outcome.result_pure, Except.ok.injEq] at hr
  rw [← hr]
  exact { haimed with }

end Planner

end JerkPlan
