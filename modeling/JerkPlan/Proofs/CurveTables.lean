import JerkPlan.Proofs.CycleCompletes
import JerkPlan.Proofs.RefinementRows

/-!
# Places inside the tables

The functions of a refinement are looked up inside their tables only.

A refinement sees curvature and speed limit as smooth functions through tables,
and these are zero outside. A zero there would be no error that anybody sees: a
speed limit of nothing, or a road without bends. So a table has to reach as far
as any point can that a solver comes up with.

How far that is comes from three places. The start is at zero, and distances do
not decrease, so no place lies before the table: the floors of the corridor may
be negative and are of no use here. Every other place is below its ceiling,
which may be beyond the end of the path. `RefinementProblem.reach` is at least
the largest ceiling, and `Spline.ofCurve_covers` is what a table makes of that.
The first place has no ceiling, but it is the start.

## Theorems

* `RefinementProblem.le_reach`: No ceiling is out of reach.
* `RefinementProblem.place_nonneg`, `RefinementProblem.Ranges.place_le_reach`:
  Where the places of a point lie.
* `Planner.refinement_curves`, `Planner.refinement_splines`: A refinement takes its
  curves as they are, and has smooth functions of them.
* `Planner.refinement_covered`: Both functions of a refinement cover all places
  of a point that keeps its lists.
-/

namespace JerkPlan

variable {R : Type} [ExactScalar R]

/-- A running maximum of upper ends is at least what it begins with and every
    end. -/
theorem le_foldl_greater (bs : List (R × R)) (m : R) :
    m ≤ bs.foldl (fun m c => greater m c.2) m ∧
      ∀ b ∈ bs, b.2 ≤ bs.foldl (fun m c => greater m c.2) m := by
  induction bs generalizing m with
  | nil => exact ⟨le_rfl, fun b hb => absurd hb List.not_mem_nil⟩
  | cons c bs ih =>
      rcases ih (greater m c.2) with ⟨hbegin, hends⟩
      rw [List.foldl_cons]
      rw [greater_eq_max] at hbegin hends ⊢
      refine ⟨(le_max_left _ _).trans hbegin, fun b hb => ?_⟩
      rcases List.mem_cons.mp hb with rfl | hb
      · exact (le_max_right _ _).trans hbegin
      · exact hends b hb

namespace RefinementProblem

variable {r : RefinementProblem R}

/-- No ceiling is out of reach, and the end of the path is not either. -/
theorem le_reach {reach : R} (h : r.reach = .ok reach) :
    r.horizon.length ≤ reach ∧ ∀ b ∈ r.hard, b.2 ≤ reach := by
  unfold RefinementProblem.reach at h
  split at h
  · exact absurd h (by simp only [reduceCtorEq, not_false_eq_true])
  · next b bs hhard =>
      rw [Except.ok.injEq, greater_eq_max] at h
      rcases le_foldl_greater bs b.2 with ⟨hbegin, hends⟩
      rw [hhard, ← h]
      refine ⟨le_max_left _ _, fun c hc => ?_⟩
      rcases List.mem_cons.mp hc with rfl | hc
      · exact hbegin.trans (le_max_right _ _)
      · exact (hends c hc).trans (le_max_right _ _)

/-- The smooth functions of a problem are made of its curves, both as far as its
    reach. -/
theorem splines_ok {kappa bound : Spline R} (h : r.splines = .ok (kappa, bound)) :
    ∃ curvature limit reach, r.curvature = some curvature ∧ r.limit = some limit ∧
      r.reach = .ok reach ∧
      Spline.ofCurve curvature reach CurveTable.usualSpacing = .ok kappa ∧
      Spline.ofCurve limit reach CurveTable.usualSpacing = .ok bound := by
  unfold splines at h
  split at h
  · next curvature limit hcurvature hlimit =>
      rcases bind_eq_ok_iff.mp h with ⟨reach, hreach, h⟩
      rcases bind_eq_ok_iff.mp h with ⟨kappa', hkappa, h⟩
      rcases bind_eq_ok_iff.mp h with ⟨bound', hbound, h⟩
      rcases Prod.mk.inj (Except.ok.inj h) with ⟨rfl, rfl⟩
      exact ⟨curvature, limit, reach, hcurvature, hlimit, hreach, hkappa, hbound⟩
  · exact absurd h (by simp only [reduceCtorEq, not_false_eq_true])

/-- Places that never decrease do not come before the start. -/
theorem place_nonneg {y : Nat → R} (hstart : 0 ≤ (stateAt r.knots y 0).p)
    (hadvance : ∀ i, i + 1 < r.knots → (stateAt r.knots y i).p ≤ (stateAt r.knots y (i + 1)).p)
    {i : Nat} (hi : i < r.knots) : 0 ≤ (stateAt r.knots y i).p := by
  induction i with
  | zero => exact hstart
  | succ i ih => exact (ih (by omega)).trans (hadvance i hi)

/-- Every place but the first one is below its ceiling, and so within reach. -/
theorem Ranges.place_le_reach {y : Nat → R} (hy : r.Ranges y) (hhard : r.hard.length = r.knots)
    {reach : R} (hreach : r.reach = .ok reach) {i : Nat} (hpos : 0 < i) (hi : i < r.knots) :
    (stateAt r.knots y i).p ≤ reach := by
  have hget : r.hard[i]? = some r.hard[i] := List.getElem?_eq_getElem (by omega)
  exact (hy.place i _ hpos hget).2.trans ((le_reach hreach).2 _ (List.mem_of_getElem? hget))

end RefinementProblem

namespace Planner

variable {p : Planner R} {h : Horizon R} {plan : KnotProfile R}

/-- A warm start is all that is set by taking one. -/
theorem warmed_eq {R : Type} {p : Planner R} {plan : KnotProfile R} {q r : RefinementProblem R}
    (hr : (p.warmed plan q).result = .ok r) : ∃ start, r = { q with warmStart := start } := by
  unfold warmed RefinementProblem.withWarmStart at hr
  split at hr
  · split at hr
    · exact absurd hr (by simp)
    · exact ⟨_, (Except.ok.inj hr).symm⟩
  · exact ⟨_, (Except.ok.inj hr).symm⟩

/-- The places to aim at are all that is set by either aim. -/
theorem aimed_eq {R : Type} {p : Planner R} {h : Horizon R} {plan : KnotProfile R}
    {q r : RefinementProblem R} (hr : p.aimed h plan q = .ok r) :
    ∃ places, r = { q with reference := some places } := by
  have hset (places : List R) (hplaces : q.withReference places = .ok r) :
      ∃ places, r = { q with reference := some places } := by
    rcases ite_error_ok hplaces with ⟨_, hplaces⟩
    exact ⟨_, (Except.ok.inj hplaces).symm⟩
  unfold aimed at hr
  split at hr
  · exact hset _ hr
  · exact hset _ hr

/-- The refinement takes both curves as they are. -/
theorem refinement_curves {curvature limit : JerkCurve R} {r : RefinementProblem R}
    (hr : (p.refinement h plan curvature limit).result = .ok r) :
    r.curvature = some curvature ∧ r.limit = some limit := by
  unfold refinement at hr
  rcases Outcome.bind_ok_iff.mp hr with ⟨_, _, hr⟩
  rcases Outcome.bind_ok_iff.mp hr with ⟨_, _, hr⟩
  rcases Outcome.bind_ok_iff.mp hr with ⟨_, hwarm, hr⟩
  rcases Outcome.bind_ok_iff.mp hr with ⟨_, haim, hr⟩
  rcases warmed_eq hwarm with ⟨_, rfl⟩
  rcases aimed_eq haim with ⟨_, rfl⟩
  rw [Outcome.result_pure, Except.ok.injEq] at hr
  rw [← hr]
  exact ⟨rfl, rfl⟩

/-- The refinement of a fitting horizon has smooth functions of its curves. -/
theorem refinement_splines (hh : h.Fits) {curvature limit : JerkCurve R} {r : RefinementProblem R}
    (hr : (p.refinement h plan curvature limit).result = .ok r) :
    ∃ kappa bound, r.splines = .ok (kappa, bound) := by
  have hfor := refinement_for hr
  have htwo := hh.two_le_knots
  rcases refinement_curves hr with ⟨hcurvature, hlimit⟩
  refine RefinementProblem.splines_total hcurvature hlimit (List.ne_nil_of_length_pos ?_)
  rw [hfor.length_hard, RefinementProblem.knots, hfor.horizon]
  omega

/-- The refinement of every horizon of a planner can be put together with any two
    curves, whatever the mode of its corridor. All places of a point that keeps
    its lists lie inside both tables. -/
theorem refinement_covered {rough : SpeedSeries R} {x : Surroundings R}
    (hh : (p.horizon rough x).result = .ok h) (hknots : 2 ≤ h.knots)
    (curvature limit : JerkCurve R) :
    (∀ plan, plan.Shaped h.knots.toNat →
      ∃ r, (p.refinement h plan curvature limit).result = .ok r) ∧
    ∀ plan r, (p.refinement h plan curvature limit).result = .ok r →
      ∃ kappa bound, r.splines = .ok (kappa, bound) ∧
        r.build = .ok (r.lists kappa.eval bound.eval) ∧
        ∀ y, (r.lists kappa.eval bound.eval).Kept y → ∀ i, i < h.knots.toNat →
          kappa.Covers (y i) ∧ bound.Covers (y i) := by
  have hfits := horizon_fits hh hknots
  refine ⟨fun plan hk => ?_, fun plan r hr => ?_⟩
  · rcases p.refinement_total hfits hk curvature limit with ⟨r, hr, _⟩
    exact ⟨r, hr⟩
  have hfor := refinement_for hr
  have hcount : r.knots = h.knots.toNat := by rw [RefinementProblem.knots, hfor.horizon]
  have hpos : 0 < r.knots := by omega
  have hlength := hfor.length_hard
  have hsoft : r.soft = [] ∨ r.soft.length = r.knots := by
    rw [hfor.soft, hcount]
    exact hfits.soft
  rcases refinement_splines hfits hr with ⟨kappa, bound, hsplines⟩
  refine ⟨kappa, bound, hsplines, bind_eq_ok_iff.mpr ⟨_, hsplines, rfl⟩, fun y hy i hi => ?_⟩
  rcases RefinementProblem.splines_ok hsplines with ⟨_, _, reach, _, _, hreach, hkappa, hbound⟩
  have hranges := (RefinementProblem.boundedAt_lists_iff hpos hlength hsoft _ _).mp hy.bounds
  rcases (RefinementProblem.keptAt_lists_iff _ _).mp hy.rows with ⟨_, hadvance, _⟩
  -- Planners place their start at zero.
  have hstart : (stateAt r.knots y 0).p = 0 := by
    rcases horizon_made hh with ⟨_, _, _, _, _, hmade⟩
    rw [hranges.start, hfor.horizon, hmade]
  have hspacing : (0 : R) < CurveTable.usualSpacing := decimal_pos (by omega) 1
  have hnonneg : 0 ≤ y i :=
    RefinementProblem.place_nonneg hstart.ge hadvance (hcount.symm ▸ hi)
  have hbelow : y i ≤ max reach CurveTable.usualSpacing := by
    rcases Nat.eq_zero_or_pos i with rfl | hlater
    · exact hstart.le.trans (hspacing.le.trans (le_max_right _ _))
    · exact (hranges.place_le_reach hlength hreach hlater (hcount.symm ▸ hi)).trans
        (le_max_left _ _)
  exact ⟨Spline.ofCurve_covers hspacing hkappa hnonneg hbelow,
    Spline.ofCurve_covers hspacing hbound hnonneg hbelow⟩

/-- A metre of road and somebody far ahead, with room to stop in beyond the end
    of the road. -/
def shortRoad : Surroundings Rat where
  regions := [⟨.stop, [(0, 50), (9, 50)], [(0, 60), (9, 60)], 0, none⟩]
  length := 1
  time := 1
  speed := 1
  acceleration := 0
  limit := ⟨[(0, 5), (1, 5)]⟩
  cruiseSpeed := 5
  legalSpeed := 5
  brake := some ⟨[⟨0, 0, 1, 0, 0⟩, ⟨13 / 10, 1, 1, 0, 0⟩]⟩
  arrived := false

/-- Speeding up leads beyond the end of the short road, where a slack pays for it. -/
def overrunning : Nat → Rat := fun j => ([0, 7 / 6, 1, 3 / 2, 0, 1, 0, 0, 0, 1 / 6][j]?).getD 0

/-- The point that overruns the end of the short road keeps the lists, and both
    tables reach as far as it does. -/
theorem refinement_covered_overrun : ∃ h r kappa bound,
    (rider.horizon ⟨[⟨0, 0, 1, 0, 0⟩, ⟨10, 10, 1, 0, 0⟩]⟩ shortRoad).result = .ok h ∧
      h.knots = 2 ∧ h.length < overrunning 1 ∧
      (rider.refinement h ⟨[0, 1], [1, 1], [0, 0]⟩ (.ofStart ⟨0, 0, 0⟩)
        (.ofStart ⟨5, 0, 0⟩)).result = .ok r ∧ r.splines = .ok (kappa, bound) ∧
      (r.lists kappa.eval bound.eval).Kept overrunning ∧
      kappa.Covers (overrunning 1) ∧ bound.Covers (overrunning 1) := by
  have hparts : ((rider.horizon ⟨[⟨0, 0, 1, 0, 0⟩, ⟨10, 10, 1, 0, 0⟩]⟩
      shortRoad).result.toOption.map fun h => decide (h.knots = 2 ∧ h.length < overrunning 1) &&
        (rider.refinement h ⟨[0, 1], [1, 1], [0, 0]⟩ (.ofStart ⟨0, 0, 0⟩)
          (.ofStart ⟨5, 0, 0⟩)).result.toOption.any fun r => r.splines.toOption.any fun curves =>
            decide ((r.programWith curves.1.eval curves.2.eval).Feasible overrunning)) =
      some true := by decide +kernel
  rcases exists_of_toOption_map hparts with ⟨h, hh, hkept⟩
  rw [Bool.and_eq_true, decide_eq_true_eq] at hkept
  rcases hkept with ⟨⟨hknots, hbeyond⟩, hkept⟩
  have hcount : h.knots.toNat = 2 := by omega
  have hplan : KnotProfile.Shaped h.knots.toNat ⟨[(0 : Rat), 1], [1, 1], [0, 0]⟩ := by
    rw [hcount]
    exact ⟨rfl, rfl, rfl⟩
  rcases refinement_covered hh (by omega) (.ofStart ⟨0, 0, 0⟩) (.ofStart ⟨5, 0, 0⟩) with
    ⟨htotal, hcovered⟩
  rcases htotal _ hplan with ⟨r, hr⟩
  rcases hcovered _ r hr with ⟨kappa, bound, hsplines, _, hinside⟩
  have hfor := refinement_for hr
  have hsize : 0 < r.knots := by rw [RefinementProblem.knots, hfor.horizon, hcount]; decide
  simp only [hr, hsplines, Except.toOption, Option.any_some, decide_eq_true_eq] at hkept
  have hlists := (RefinementProblem.kept_lists_iff hsize hfor.length_hard _ _ _).mpr hkept
  exact ⟨h, r, kappa, bound, hh, hknots, hbeyond, hr, hsplines, hlists,
    hinside _ hlists 1 (by omega)⟩

end Planner

end JerkPlan
