import JerkPlan.Proofs.ConvexProblems
import JerkPlan.Proofs.RegionCuts

/-!
# Standing starts

A vehicle that stands can always stay where it is.

Staying is the point all of whose coordinates are zero. Rows without bounds of
their own are worth zero there, so what is left to see is that zero lies
between the two bounds of everything that is bounded, before clipping as well
as after. The limits of speed, acceleration and jerk have it from the checks.
For the corridor it is a matter of floors. A region that one stays below lowers
ceilings and never a floor, and the floor of an opening is zero to begin with.
Opening it again moves the ceiling ahead of the start, wherever the regions
have pushed it, and then has no reason to touch the floor. An emergency stop
lifts the ceiling further.

So no solver that is right about what is infeasible says so of the plan of a
standing vehicle.

## Main definitions

* `Endpoint.AroundZero`: Ends with zero between them.
* `KnotProblem.AdmitsRest`: A problem all of whose bounds have zero between
  them.
* `ConvexSolver.Candid`: A solver that does not call a problem infeasible
  without a reason.

## Theorems

* `Endpoint.AroundZero.clip`, `Endpoint.AroundZero.scale`: Zero stays between
  the ends.
* `KnotProblem.AdmitsRest.hold`: Staying keeps every row.
* `clampPair_floor`: Opening an interval leaves its floor at the base.
* `Corridor.compile_floor`: The floor of a corridor that one stays below.
* `ConvexFor.admitsRest`: The problem of a standing vehicle.
* `Planner.planConvex_standing`: Its plan is never infeasible.
-/

namespace JerkPlan

variable {R : Type} [ExactScalar R]

/-! Rows -/

namespace Endpoint

/-- Zero lies between two ends. -/
def AroundZero (b : Endpoint R × Endpoint R) : Prop :=
  b.1.Below (.finite 0) ∧ (Endpoint.finite 0).Below b.2

theorem clip_zero : (finite (0 : R)).clip = 0 :=
  clip_finite (neg_nonpos.mpr huge_pos.le) huge_pos.le

/-- Clipping leaves zero between the ends. -/
theorem AroundZero.clip {b : Endpoint R × Endpoint R} (h : AroundZero b) :
    b.1.clip ≤ 0 ∧ 0 ≤ b.2.clip := by
  have hlower := h.1.clip_le
  have hupper := h.2.clip_le
  rw [clip_zero] at hlower hupper
  exact ⟨hlower, hupper⟩

/-- So does a positive factor. -/
theorem AroundZero.scale {b : Endpoint R × Endpoint R} (h : AroundZero b) {c : R} (hc : 0 < c) :
    AroundZero (b.1.scale c, b.2.scale c) := by
  have hzero : (finite (0 : R)).scale c = finite 0 := by rw [Endpoint.scale, zero_mul]
  have hlower := h.1.scale hc
  have hupper := h.2.scale hc
  rw [hzero] at hlower hupper
  exact ⟨hlower, hupper⟩

end Endpoint

/-- Every row is worth zero where all coordinates are. -/
theorem rowValue_zero (row : List (Nat × R)) : rowValue (fun _ => 0) row = 0 := by
  induction row with
  | nil => rfl
  | cons e row ih => rw [rowValue_cons, ih, mul_zero, add_zero]

namespace KnotProblem

/-- Zero lies between all bounds of a problem, and it starts there. -/
structure AdmitsRest (q : KnotProblem R) : Prop where
  values : ∀ b ∈ q.pBounds, Endpoint.AroundZero b
  slopes : ∀ b ∈ q.vBounds, Endpoint.AroundZero b
  bends : ∀ b ∈ q.aBounds, Endpoint.AroundZero b
  changes : Endpoint.AroundZero q.jerkBounds
  start : q.start = [0, 0, 0]

/-- Staying where all coordinates are zero keeps every row, block by block. -/
theorem AdmitsRest.hold {q : KnotProblem R} (h : q.AdmitsRest) (hq : q.WellFormed) :
    q.constraints.Hold fun _ => 0 := by
  refine (hold_constraints_iff hq).mpr ⟨?_, ?_, ?_, ?_, ?_, ?_⟩
  · exact fun i b hb => (h.values b (List.mem_of_getElem? hb)).clip
  · exact fun i b hb => (h.slopes b (List.mem_of_getElem? hb)).clip
  · exact fun i b hb => (h.bends b (List.mem_of_getElem? hb)).clip
  · intro i _
    simp only [stateAt, sub_self]
    exact (h.changes.scale hq.step_pos).clip
  · intro i _
    rw [rowValue_zero, rowValue_zero]
    exact ⟨⟨le_rfl, le_rfl⟩, le_rfl, le_rfl⟩
  · intro x v a hstart
    rw [h.start] at hstart
    simp only [List.cons.injEq, and_true] at hstart
    rcases hstart with ⟨rfl, rfl, rfl⟩
    simp only [stateAt, Endpoint.clip_zero, le_refl, and_self]

end KnotProblem

/-! Corridors -/

/-- Opening an interval whose floor is the base leaves the floor there. -/
theorem clampPair_floor {upper base margin : R} (h : 0 < margin) :
    (clampPair base upper base margin).1 = base := by
  -- The ceiling ends up above the base, and so above the floor.
  have hceiling : base < (clampPair base upper base margin).2 := (clampPair_open h).2
  exact if_neg (not_le.mpr hceiling)

namespace Corridor

variable {regions : List (Region R)} {length : R} {rough : SpeedSeries R}
  {brake : Option (SpeedSeries R)} {c : Comfort R} {p : PlanSettings R}

/-- Regions that one stays below leave the hard floor of an opening at zero. -/
theorem softOpening_floor {knot : Nat} {t : R} {o : Opening R} (hmargin : 0 < p.boundMargin)
    (hbelow : ∀ r ∈ regions, r.StaysBelow)
    (h : (softOpening regions length rough brake c p knot t).result = .ok o) : o.lower = 0 := by
  rw [softOpening_result] at h
  rcases bind_eq_ok_iff.mp h with ⟨speed, _, h⟩
  rcases bind_eq_ok_iff.mp h with ⟨o', hcuts, h⟩
  rcases ite_error_ok h with ⟨_, h⟩
  -- No cut moves the floor from where it is at first.
  have hcut (r : Region R) (hr : r ∈ regions) (b b' : Opening R) (hb : b.lower = 0)
      (h : cut c p t speed b r = .ok b') : b'.lower = 0 := (cut_below (hbelow r hr) h).1.trans hb
  have hfloor : o'.lower = 0 := foldlM_keeps regions hcut _ _ rfl hcuts
  rw [← Except.ok.inj h]
  simp only [Opening.relax, Opening.settle, hfloor]
  exact clampPair_floor hmargin

/-- In the soft mode, regions that one stays below leave the floor of a corridor
    at zero and its ceiling ahead of the start. -/
theorem compile_floor {knots : Int} {step : R} {corridor : Corridor R}
    (hmargin : 0 < p.boundMargin) (hsoft : c.softBounds = true)
    (hbelow : ∀ r ∈ regions, r.StaysBelow)
    (h : (compile regions knots step length rough brake c p).result = .ok corridor) :
    ∀ b ∈ corridor.hard, b.1 = 0 ∧ 0 < b.2 := by
  rw [compile, if_pos hsoft] at h
  rcases Outcome.bind_ok_iff.mp h with ⟨os, hos, h⟩
  rw [← Except.ok.inj h, List.forall_mem_map]
  exact of_openings hos fun i _ o ho =>
    ⟨softOpening_floor hmargin hbelow ho, (softOpening_ok hmargin ho).1.2⟩

end Corridor

/-! The plan of a standing vehicle -/

/-- A convex problem admits rest when its corridor has zero as its floor, its
    limits allow standing still, and it starts that way. -/
theorem ConvexFor.admitsRest {h : Horizon R} {q : KnotProblem R} (hq : ConvexFor h q)
    (hrest : h.AllowsRest) (hhard : ∀ b ∈ h.corridor.hard, b.1 = 0 ∧ 0 < b.2)
    (hstart : h.start = [0, 0, 0]) : q.AdmitsRest := by
  have hspeed : h.speed = 0 := by
    simp only [Horizon.start, List.cons.injEq, and_true] at hstart
    exact hstart.2.1
  refine ⟨?_, ?_, ?_, ?_, hq.start.trans hstart⟩
  · rw [hq.pBounds, List.forall_mem_map]
    exact fun b hb => ⟨(hhard b hb).1.le, (hhard b hb).2.le⟩
  · rw [hq.vBounds, hspeed, zero_add, greater_eq_max]
    -- Even a negative legal speed leaves room for the margin of the start.
    have hmargin : (0 : R) ≤ max h.legalSpeed startSpeedMargin :=
      (decimal_pos one_pos 1).le.trans (le_max_right _ _)
    exact List.forall_mem_replicate.mpr (.inr ⟨le_rfl, hmargin⟩)
  · rw [hq.aBounds]
    exact List.forall_mem_replicate.mpr (.inr hrest.acceleration)
  · rw [hq.jerkBounds]
    exact hrest.jerk

/-- A solver that calls a problem infeasible only when no point keeps all of
    its constraints. -/
def ConvexSolver.Candid (solve : ConvexSolver R) : Prop :=
  ∀ budget q answer, solve budget q = .ok answer →
    answer.status.name = ConvexStatus.infeasible.name → ∀ z, ¬ q.constraints.Hold z

/-- A checked planner in the soft mode always leaves a standing vehicle the
    plan to stay, whatever it has to stay below. No candid solver fails the
    stage because the problem is infeasible. -/
theorem Planner.planConvex_standing {p : Planner R} (hp : p.Checked)
    (hsoft : p.comfort.softBounds = true) {rough : SpeedSeries R} {x : Surroundings R}
    (hbelow : ∀ r ∈ x.regions, r.StaysBelow) (hspeed : x.speed = 0)
    (hacceleration : x.acceleration = 0) {h : Horizon R}
    (hh : (p.horizon rough x).result = .ok h) (hknots : 2 ≤ h.knots) :
    ∃ q, (convexProblem h rough p.settings).result = .ok q ∧ q.constraints.Rectangular ∧
      q.constraints.Hold (fun _ => 0) ∧
        ∀ solve : ConvexSolver R, solve.Candid → ∀ words,
          (planConvex solve h rough p.settings).result ≠
            .error (.stage (.convex words (some ConvexStatus.infeasible.name))) := by
  have hmargin := ((PlanSettings.checked_iff _).mp hp.settings).margin_pos
  rcases convexProblem_ready hp hh hknots with ⟨q, hq, hfor, _⟩
  rcases horizon_parts hh with ⟨_, _, hcorridor⟩
  have hstart : h.start = [0, 0, 0] := by
    rw [horizon_eq hh]
    simp only [Horizon.start, hspeed, hacceleration]
  have hhold := (hfor.admitsRest (horizon_allowsRest hp hh)
    (Corridor.compile_floor hmargin hsoft hbelow hcorridor) hstart).hold hfor.wellFormed
  refine ⟨q, hq, KnotProblem.rectangular_constraints hfor.wellFormed, hhold,
    fun solve hsolve words he => ?_⟩
  rcases planConvex_error hq he with hasked | ⟨answer, words', hanswer, _, hstage⟩
  · -- Asking a solver is not what fails a stage.
    exact KnotProblem.optimize_unstaged solve p.settings.convexBudget q _ hasked
  · rw [Failure.stage.injEq, StageFailure.convex.injEq, Option.some.injEq] at hstage
    exact hsolve _ _ _ hanswer hstage.2.symm _ hhold

/-! Hemmed in -/

/-- Somebody to stop for who is already behind, somebody to yield to who comes
    from there, and somebody to follow who stands at the start. -/
def hemmedIn : Surroundings Rat where
  regions :=
    [⟨.stop, [(0, -3), (9, -3)], [(0, 2), (9, 2)], 1, none⟩,
      ⟨.yield, [(0, -9), (9, 27)], [(0, -5), (9, 31)], 2, some (0, 6)⟩,
      ⟨.follow, [(0, 0), (9, 0)], [(0, 4), (9, 4)], 3, none⟩]
  length := -1
  time := 1 / 5
  speed := 0
  acceleration := 0
  limit := ⟨[(0, 5), (30, 5)]⟩
  cruiseSpeed := 5
  legalSpeed := -1
  brake := some ⟨[⟨0, 0, 0, 0, 0⟩, ⟨0, 9, 0, 0, 0⟩]⟩
  arrived := false

/-- Even hemmed in, a vehicle that stands may stay. -/
theorem Planner.planConvex_standing_hemmedIn :
    (∀ r ∈ hemmedIn.regions, r.StaysBelow) ∧
      ∃ h q, ((Planner.usual : Planner Rat).horizon ⟨[⟨0, 0, 0, 0, 0⟩, ⟨0, 9, 0, 0, 0⟩]⟩
          hemmedIn).result = .ok h ∧ h.knots = 3 ∧
        (convexProblem h ⟨[⟨0, 0, 0, 0, 0⟩, ⟨0, 9, 0, 0, 0⟩]⟩ Planner.usual.settings).result =
          .ok q ∧ q.constraints.Hold fun _ => 0 := by
  have hbelow : ∀ r ∈ hemmedIn.regions, r.StaysBelow := by
    simp only [hemmedIn, List.forall_mem_cons]
    exact ⟨.inl rfl, .inr (.inl rfl), .inr (.inr rfl), by simp⟩
  have hknots : (((Planner.usual : Planner Rat).horizon ⟨[⟨0, 0, 0, 0, 0⟩, ⟨0, 9, 0, 0, 0⟩]⟩
      hemmedIn).result.toOption.map (·.knots)) = some 3 := by decide +kernel
  rcases hh : ((Planner.usual : Planner Rat).horizon ⟨[⟨0, 0, 0, 0, 0⟩, ⟨0, 9, 0, 0, 0⟩]⟩
    hemmedIn).result with e | h
  · rw [hh] at hknots
    exact absurd hknots (by simp [Except.toOption])
  rw [hh] at hknots
  simp only [Except.toOption, Option.map_some, Option.some.injEq] at hknots
  rcases planConvex_standing usual_checked rfl hbelow rfl rfl hh (by omega) with
    ⟨q, hq, _, hhold, _⟩
  exact ⟨hbelow, h, q, rfl, hknots, hq, hhold⟩

end JerkPlan
