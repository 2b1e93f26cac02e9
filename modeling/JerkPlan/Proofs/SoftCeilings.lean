import JerkPlan.Proofs.Exact
import JerkPlan.Proofs.CorridorKnots

/-!
# Soft ceilings

How far the soft ceiling of a knot can be above the hard one.

Among regions that one stops for or follows, none lowers the hard ceiling
further than the soft one. One stops at the same place for both, and the
distance one would like to keep behind others is never less than the gap that
must be kept. So when all regions have cut, the soft ceiling is below the hard
one.

What comes next looks at the two ceilings apart. A ceiling at the start or
behind it is opened again, and ends up at the margin; one that is ahead of the
start by less than the margin stays where it is. So the soft ceiling may pass
the hard one, and `withSoft_ceilings` says that it does so in this way only.
An emergency stop lifts the hard ceiling and widens the distance.

All that is asked of arithmetic is that rounding keeps the order.

## Main definitions

* `Opening.SoftInside`: The soft ceiling is not above the hard one.

## Theorems

* `clampPair_ceiling_le`: Opening again keeps ceilings in order, but for one
  case.
* `le_followDistance`: The distance one would like to keep covers the gap.
* `Corridor.cut_softInside`: Stopping and following keep the ceilings in order.
* `Corridor.withSoft_ceilings`: The ceilings of a corridor.
-/

namespace JerkPlan

variable {R : Type} [RoundedScalar R]

/-- Where a ceiling ends up that is opened again over the start. -/
theorem clampPair_ceiling (lower upper margin : R) :
    (clampPair lower upper 0 margin).2 = if upper ≤ 0 then margin else upper := by
  simp only [clampPair, RoundedScalar.zero_add]

/-- Opening two intervals again keeps their ceilings in order, unless the lower
    one was behind the start and has been put to the margin. -/
theorem clampPair_ceiling_le {upper upper' : R} (h : upper' ≤ upper) (lower lower' margin : R) :
    (clampPair lower' upper' 0 margin).2 ≤ (clampPair lower upper 0 margin).2 ∨
      (clampPair lower' upper' 0 margin).2 = margin ∧
        0 < (clampPair lower upper 0 margin).2 := by
  rw [clampPair_ceiling, clampPair_ceiling]
  by_cases hbehind : upper ≤ 0
  · -- Both are put to the margin.
    left
    rw [if_pos hbehind, if_pos (h.trans hbehind)]
  · rw [if_neg hbehind]
    by_cases hbehind' : upper' ≤ 0
    · right
      rw [if_pos hbehind']
      exact ⟨rfl, not_le.mp hbehind⟩
    · left
      rw [if_neg hbehind']
      exact h

/-- The distance one would like to keep is never less than the gap that must be
    kept. -/
theorem le_followDistance (speed gap : R) (c : Comfort R) : gap ≤ followDistance speed gap c := by
  rw [followDistance, greater_eq_max]
  exact le_max_left _ _

namespace Opening

/-- The soft ceiling of an opening is not above the hard one. -/
def SoftInside (o : Opening R) : Prop := o.softUpper ≤ o.upper

/-- Two ceilings in order leave them in order. -/
theorem SoftInside.cap {o : Opening R} (ho : o.SoftInside) {hard soft : R} (h : soft ≤ hard) :
    (o.cap hard soft).SoftInside := by
  simp only [SoftInside, Opening.cap, lesser_eq_min]
  exact min_le_min ho h

end Opening

namespace Corridor

variable {regions : List (Region R)} {length : R} {rough : SpeedSeries R}
  {brake : Option (SpeedSeries R)} {c : Comfort R} {p : PlanSettings R} {t : R}

/-- A region that one stops for or follows keeps the ceilings in order. -/
theorem cut_softInside {r : Region R} {speed : R} {o o' : Opening R}
    (hr : r.manoeuvre = .stop ∨ r.manoeuvre = .follow) (ho : o.SoftInside)
    (h : cut c p t speed o r = .ok o') : o'.SoftInside := by
  unfold cut at h
  rcases hpassage : r.passage t with _ | passage
  · rw [hpassage] at h
    rw [← Except.ok.inj h]
    exact ho
  rw [hpassage] at h
  rcases hr with hkind | hkind
  · rw [hkind] at h
    cases passage with
    | below ceiling =>
        rw [← Except.ok.inj h]
        exact ho.cap le_rfl
    | above floor =>
        rw [← Except.ok.inj h]
        exact ho
  · rw [hkind] at h
    cases passage with
    | below ceiling =>
        -- The larger distance leaves the lower ceiling.
        rw [← Except.ok.inj h]
        exact ho.cap (RoundedScalar.sub_le_sub_left _ _ _ (le_followDistance speed _ c))
    | above floor =>
        rw [← Except.ok.inj h]
        exact ho

/-- At one knot, the soft ceiling passes the hard one only from behind the
    start to the margin. -/
theorem softOpening_ceilings {knot : Nat} {o : Opening R}
    (hregions : ∀ r ∈ regions, r.manoeuvre = .stop ∨ r.manoeuvre = .follow)
    (h : (softOpening regions length rough brake c p knot t).result = .ok o) :
    o.softUpper ≤ o.upper ∨
      0 < o.upper ∧ o.upper < o.softUpper ∧ o.softUpper = p.boundMargin := by
  rw [softOpening_result] at h
  rcases bind_eq_ok_iff.mp h with ⟨speed, _, h⟩
  rcases bind_eq_ok_iff.mp h with ⟨o', hcuts, h⟩
  rcases ite_error_ok h with ⟨_, h⟩
  -- The whole path has one ceiling for both intervals, and every cut keeps them in order.
  have hwhole : (Opening.whole length).SoftInside := le_refl length
  have hinside : o'.SoftInside := foldlM_keeps regions
    (fun r hr _ _ ho hcut => cut_softInside (hregions r hr) ho hcut) _ _ hwhole hcuts
  have hlift : (o'.settle p.boundMargin).upper ≤ o.upper := by
    rw [← Except.ok.inj h]
    exact (o'.settle p.boundMargin).upper_le_relax _
  have hsoft : o.softUpper = (o'.settle p.boundMargin).softUpper := by
    rw [← Except.ok.inj h, Opening.relax]
  rw [hsoft]
  rcases clampPair_ceiling_le hinside o'.lower o'.softLower p.boundMargin with hle | ⟨hsame, hpos⟩
  · exact Or.inl (hle.trans hlift)
  · by_cases hle : (o'.settle p.boundMargin).softUpper ≤ o.upper
    · exact Or.inl hle
    · exact Or.inr ⟨hpos.trans_le hlift, not_le.mp hle, hsame⟩

/-- Where one only stops for others and follows them, the soft ceiling of a
    knot is not above the hard one, with one exception: the hard ceiling is
    ahead of the start by less than the margin, and the soft one, found behind
    the start, has been put to the margin. -/
theorem withSoft_ceilings {knots : Int} {step : R} {corridor : Corridor R}
    (hregions : ∀ r ∈ regions, r.manoeuvre = .stop ∨ r.manoeuvre = .follow)
    (h : (withSoft regions knots step length rough brake c p).result = .ok corridor) :
    List.Forall₂ (fun hard soft => soft.2 ≤ hard.2 ∨
      0 < hard.2 ∧ hard.2 < soft.2 ∧ soft.2 = p.boundMargin) corridor.hard corridor.soft := by
  rcases Outcome.bind_ok_iff.mp h with ⟨os, hos, h⟩
  have heach : ∀ o ∈ os, o.softUpper ≤ o.upper ∨
      0 < o.upper ∧ o.upper < o.softUpper ∧ o.softUpper = p.boundMargin :=
    of_openings hos fun _ _ _ ho => softOpening_ceilings hregions ho
  -- Hard and soft intervals are read off the same openings.
  rw [← Except.ok.inj h, List.forall₂_map_left_iff, List.forall₂_map_right_iff]
  exact List.forall₂_same.mpr heach

/-! Somebody right ahead -/

/-- Somebody right ahead who drives off, and a place to stop further on. -/
def drivingOff : List (Region Rat) :=
  [⟨.follow, [(0, 81 / 16), (9, 513 / 16)], [(0, 9), (9, 36)], 5, none⟩,
    ⟨.stop, [(0, 18), (9, 18)], [(0, 25), (9, 25)], 0, none⟩]

/-- The corridor behind them over three knots, two seconds apart. -/
def drivingOffCorridor : Outcome Rat (Corridor Rat) :=
  withSoft drivingOff 3 2 100 ⟨[⟨0, 0, 10, 0, 0⟩, ⟨90, 9, 10, 0, 0⟩]⟩
    (some ⟨[⟨0, 0, 10, 0, 0⟩, ⟨9, 9, 0, 0, 0⟩]⟩) .usual .usual

/-- A corridor that comes about with given intervals. -/
theorem result_of_intervals {x : Outcome Rat (Corridor Rat)} {hard soft : List (Rat × Rat)}
    (h : (x.result.toOption.map fun corridor => (corridor.hard, corridor.soft)) =
      some (hard, soft)) : x.result = .ok ⟨hard, soft⟩ := by
  rcases exists_of_toOption_map h with ⟨corridor, hresult, hparts⟩
  rw [Prod.mk.injEq] at hparts
  rw [hresult, ← hparts.1, ← hparts.2]

/-- The emergency stop lifts the first hard ceiling to the margin of its own,
    and later on there is room. -/
theorem withSoft_ceilings_drivingOff :
    (∀ r ∈ drivingOff, r.manoeuvre = .stop ∨ r.manoeuvre = .follow) ∧
      drivingOffCorridor.result = .ok ⟨[(0, 1 / 5), (0, 97 / 16), (0, 193 / 16)],
        [(0, 1 / 10), (0, 17 / 16), (0, 113 / 16)]⟩ ∧
      List.Forall₂ (fun hard soft : Rat × Rat => soft.2 ≤ hard.2 ∨
          0 < hard.2 ∧ hard.2 < soft.2 ∧ soft.2 = PlanSettings.usual.boundMargin)
        [(0, 1 / 5), (0, 97 / 16), (0, 193 / 16)] [(0, 1 / 10), (0, 17 / 16), (0, 113 / 16)] := by
  have hregions : ∀ r ∈ drivingOff, r.manoeuvre = .stop ∨ r.manoeuvre = .follow := by
    simp only [drivingOff, List.forall_mem_cons]
    exact ⟨.inr trivial, .inl trivial, by simp⟩
  have h : drivingOffCorridor.result = .ok ⟨[(0, 1 / 5), (0, 97 / 16), (0, 193 / 16)],
      [(0, 1 / 10), (0, 17 / 16), (0, 113 / 16)]⟩ := result_of_intervals (by decide +kernel)
  exact ⟨hregions, h, withSoft_ceilings hregions h⟩

/-- Without the emergency stop the soft ceiling at the first knot is above the
    hard one. -/
theorem softCeiling_above_hard :
    ∃ corridor, (withSoft drivingOff 3 2 100 ⟨[⟨0, 0, 10, 0, 0⟩, ⟨90, 9, 10, 0, 0⟩]⟩ none
        .usual .usual).result = .ok corridor ∧
      corridor.hard = [(0, 1 / 16), (0, 97 / 16), (0, 193 / 16)] ∧
      corridor.soft = [(0, 1 / 10), (0, 17 / 16), (0, 113 / 16)] ∧
      ¬ List.Forall₂ (fun hard soft => soft.2 ≤ hard.2) corridor.hard corridor.soft := by
  refine ⟨_, result_of_intervals (by decide +kernel), rfl, rfl, fun hall => ?_⟩
  rw [List.forall₂_cons] at hall
  exact absurd hall.1 (by norm_num)

end Corridor

end JerkPlan
