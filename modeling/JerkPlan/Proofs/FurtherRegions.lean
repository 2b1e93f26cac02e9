import JerkPlan.Proofs.CorridorEnds

/-!
# Further regions

What one more region does to a corridor.

A region lowers ceilings or raises floors and does nothing else, so another
region leaves less of the road at every knot. What has closed is opened again
by the margin, though, and an interval that is opened again knows nothing of
where it was before. A ceiling at the start or behind it is put to the margin,
which may be further ahead than a ceiling that was not yet behind the start. A
floor at its ceiling or beyond it is put the margin below the ceiling, which may
be anywhere below a floor that a ceiling has come down upon.

`Corridor.Tightened` allows for these two and for nothing else. It looks at what
the cuts leave before anything is opened again: a ceiling moves ahead only if
they leave it at the start or behind it, and a floor moves back only if they
leave nothing below the ceiling. What they leave open ahead of the start stays
as it is. Regions that one overtakes never move a ceiling, whatever they do to
the floor.

The further region may stand anywhere in the list. What is left depends only on
which regions there are, and on the speed one expects to have. Both lists of
regions ask for the same speed, unless the first one is empty, where no cut
depends on it.

## Main definitions

* `Corridor.Tightened`: An interval that more has been cut off.

## Theorems

* `Corridor.le_reopen_ceiling`, `Corridor.reopen_floor_le`: Opening again moves
  ceilings ahead and floors back.
* `Corridor.reopen_tightened`: Opening two intervals again, one inside the other.
* `Corridor.CutAt.further`: What a further region leaves.
* `Corridor.withSoft_further`: The corridor with one more region.
-/

namespace JerkPlan

namespace Corridor

section Reopened

variable {R : Type} [RoundedScalar R] {margin : R} {b b' : R × R}

/-- Opening an interval again puts its ceiling nowhere below where it was. -/
theorem le_reopen_ceiling (hmargin : 0 ≤ margin) (b : R × R) : b.2 ≤ (reopen margin b).2 := by
  by_cases hahead : 0 < b.2
  · have hceiling : (reopen margin b).2 = b.2 := if_pos hahead
    exact hceiling.ge
  · have hceiling : (reopen margin b).2 = margin := if_neg hahead
    rw [hceiling]
    exact (not_lt.mp hahead).trans hmargin

/-- It never raises the floor. -/
theorem reopen_floor_le (hmargin : 0 ≤ margin) (b : R × R) : (reopen margin b).1 ≤ b.1 := by
  by_cases hopen : b.1 < (reopen margin b).2
  · have hfloor : (reopen margin b).1 = b.1 := if_pos hopen
    exact hfloor.le
  · have hfloor : (reopen margin b).1 = (reopen margin b).2 - margin := if_neg hopen
    have hless := RoundedScalar.sub_le_sub_left _ _ (reopen margin b).2 hmargin
    rw [RoundedScalar.sub_zero, ← hfloor] at hless
    exact hless.trans (not_lt.mp hopen)

/-- Where a ceiling ends up does not depend on the floor. -/
theorem reopen_ceiling_congr (margin : R) (h : b'.2 = b.2) :
    (reopen margin b').2 = (reopen margin b).2 := by
  simp only [reopen, h]

/-- What becomes of an interval `b` after more has been cut off. The cuts leave
    `cut` of the road, and `b'` is that, opened again where it has closed.

    The floor is not lower than before, unless the cuts have brought the ceiling
    down upon it, and then it is the margin below the ceiling. The ceiling is not
    higher, unless the cuts have brought it to the start or behind it, and then it
    is at the margin. An interval that they leave open ahead of the start stays as
    they leave it. -/
structure Tightened (margin : R) (cut b b' : R × R) : Prop where
  floor : b.1 ≤ b'.1 ∨ cut.2 ≤ cut.1 ∧ b'.1 = b'.2 - margin
  ceiling : b'.2 ≤ b.2 ∨ cut.2 ≤ 0 ∧ b'.2 = margin
  kept : cut.1 < cut.2 → 0 < cut.2 → b' = cut

/-- Opening two intervals again, of which one is inside the other. -/
theorem reopen_tightened (hmargin : 0 ≤ margin) (hfloor : b.1 ≤ b'.1) (hceiling : b'.2 ≤ b.2) :
    Tightened margin b' (reopen margin b) (reopen margin b') where
  floor := by
    by_cases hopen : b'.1 < (reopen margin b').2
    · -- Still open, so the floor is where the cuts have left it.
      left
      have hleft : (reopen margin b').1 = b'.1 := if_pos hopen
      rw [hleft]
      exact (reopen_floor_le hmargin b).trans hfloor
    · right
      exact ⟨(le_reopen_ceiling hmargin b').trans (not_lt.mp hopen), if_neg hopen⟩
  ceiling := by
    by_cases hahead : 0 < b'.2
    · left
      have hleft : (reopen margin b').2 = b'.2 := if_pos hahead
      rw [hleft]
      exact hceiling.trans (le_reopen_ceiling hmargin b)
    · right
      exact ⟨not_lt.mp hahead, if_neg hahead⟩
  kept hopen hahead := reopen_of_open hopen hahead margin

end Reopened

section Further

variable {R : Type} [RoundedScalar R] {regions regions' : List (Region R)} {r : Region R}
  {length t : R} {rough : SpeedSeries R} {c : Comfort R} {p : PlanSettings R}
  {b b' soft soft' : R × R}

/-- What is left to soft intervals by some regions, and by more of them, can be
    told with the speed that the longer list expects. -/
theorem CutAt.same_speed (hsub : regions ⊆ regions')
    (h : CutAt regions length rough c p t b soft)
    (h' : CutAt regions' length rough c p t b' soft') :
    ∃ speed,
      CutBy t (Region.softCeiling c speed t) (Region.softFloor p t) regions (0, length) soft ∧
      CutBy t (Region.softCeiling c speed t) (Region.softFloor p t) regions' (0, length) soft' := by
  rcases h with ⟨speed, hspeed, -, hcuts⟩
  rcases h' with ⟨speed', hspeed', -, hcuts'⟩
  refine ⟨speed', hcuts.congr (fun x hx => ?_) fun _ _ => rfl, hcuts'⟩
  rcases hspeed (List.ne_nil_of_mem hx) with ⟨here, hhere, rfl⟩
  rcases hspeed' (List.ne_nil_of_mem (hsub hx)) with ⟨here', hhere', rfl⟩
  rw [Option.some.inj (hhere.symm.trans hhere')]

/-- A further region leaves less of both intervals, and one that is to overtake
    leaves both ceilings where they are. -/
theorem CutAt.further (hperm : regions'.Perm (r :: regions))
    (h : CutAt regions length rough c p t b soft)
    (h' : CutAt regions' length rough c p t b' soft') :
    (b.1 ≤ b'.1 ∧ b'.2 ≤ b.2) ∧ (soft.1 ≤ soft'.1 ∧ soft'.2 ≤ soft.2) ∧
      (r.manoeuvre = .overtake → b'.2 = b.2 ∧ soft'.2 = soft.2) := by
  have hsub := subset_of_perm_cons hperm
  rcases h.same_speed hsub h' with ⟨speed, hsoft, hsoft'⟩
  rcases h with ⟨_, _, hhard, _⟩
  rcases h' with ⟨_, _, hhard', _⟩
  refine ⟨hhard.narrows hsub hhard', hsoft.narrows hsub hsoft', fun hover => ⟨?_, ?_⟩⟩
  · exact hhard.upper_eq hperm (by simp only [Region.hardCeiling, hover]) hhard'
  · exact hsoft.upper_eq hperm (by simp only [Region.softCeiling, hover]) hsoft'

/-- Without an emergency stop both intervals of a knot are what the regions leave,
    opened again. -/
theorem Composed.reopened {hard : R × R} (h : Composed regions length rough none c p t hard soft) :
    ∃ b b', CutAt regions length rough c p t b b' ∧ hard = reopen p.boundMargin b ∧
      soft = reopen p.boundMargin b' := by
  rcases h with ⟨b, b', hcuts, hhard, hsoft⟩
  rw [stopPlace_none] at hhard
  exact ⟨b, b', hcuts, hhard, hsoft⟩

/-- One more region tightens both intervals of every knot. They can give some of
    the road back only where the cuts of all regions have closed them, and they do
    it as intervals are opened again. If it is a region to overtake, no ceiling
    moves at all. -/
theorem withSoft_further (hperm : regions'.Perm (r :: regions)) (hmargin : 0 ≤ p.boundMargin)
    {knots : Int} {step : R} {corridor corridor' : Corridor R}
    (h : (withSoft regions knots step length rough none c p).result = .ok corridor)
    (h' : (withSoft regions' knots step length rough none c p).result = .ok corridor') :
    (corridor.hard.length = knots.toNat ∧ corridor.soft.length = knots.toNat) ∧
    (corridor'.hard.length = knots.toNat ∧ corridor'.soft.length = knots.toNat) ∧
    ∀ i : Nat, i < knots.toNat → ∃ hard hard' soft soft' cut softCut,
      corridor.hard[i]? = some hard ∧ corridor'.hard[i]? = some hard' ∧
      corridor.soft[i]? = some soft ∧ corridor'.soft[i]? = some soft' ∧
      CutAt regions' length rough c p ((i : R) * step) cut softCut ∧
      Tightened p.boundMargin cut hard hard' ∧ Tightened p.boundMargin softCut soft soft' ∧
      (r.manoeuvre = .overtake → hard'.2 = hard.2 ∧ soft'.2 = soft.2) := by
  rcases withSoft_composed h with ⟨hlength, hlengthSoft, hknots⟩
  rcases withSoft_composed h' with ⟨hlength', hlengthSoft', hknots'⟩
  refine ⟨⟨hlength, hlengthSoft⟩, ⟨hlength', hlengthSoft'⟩, fun i hi => ?_⟩
  rcases hknots i hi with ⟨hard, soft, hhard, hsoft, hcomposed⟩
  rcases hknots' i hi with ⟨hard', soft', hhard', hsoft', hcomposed'⟩
  rcases hcomposed.reopened with ⟨b, s, hcuts, rfl, rfl⟩
  rcases hcomposed'.reopened with ⟨b', s', hcuts', rfl, rfl⟩
  rcases hcuts.further hperm hcuts' with ⟨⟨hfloor, hceiling⟩, ⟨hfloor', hceiling'⟩, habove⟩
  refine ⟨_, _, _, _, b', s', hhard, hhard', hsoft, hsoft', hcuts',
    reopen_tightened hmargin hfloor hceiling, reopen_tightened hmargin hfloor' hceiling',
    fun hover => ?_⟩
  exact ⟨reopen_ceiling_congr _ (habove hover).1, reopen_ceiling_congr _ (habove hover).2⟩

end Further

/-! A car that has broken down -/

/-- The corridor of the first knot, expecting to go at ten. -/
def atFirstKnot (regions : List (Region Rat)) : Outcome Rat (Corridor Rat) :=
  withSoft regions 1 (1 / 2) 100 straightOn none .usual .usual

/-- Overtaking it moves the floors to its head and beyond, and the traffic light
    ahead stays where it is. -/
theorem withSoft_further_still :
    [still .overtake 10 15, still .stop 40 45].Perm [still .overtake 10 15, still .stop 40 45] ∧
      0 ≤ (PlanSettings.usual : PlanSettings Rat).boundMargin ∧
      (atFirstKnot [still .stop 40 45]).result = .ok ⟨[(0, 40)], [(0, 40)]⟩ ∧
      (atFirstKnot [still .overtake 10 15, still .stop 40 45]).result =
        .ok ⟨[(15, 40)], [(25, 40)]⟩ ∧
      ∃ cut softCut, CutAt [still .overtake 10 15, still .stop 40 45] 100 straightOn .usual .usual
          (((0 : Nat) : Rat) * (1 / 2)) cut softCut ∧
        Tightened (PlanSettings.usual : PlanSettings Rat).boundMargin cut (0, 40) (15, 40) ∧
        Tightened (PlanSettings.usual : PlanSettings Rat).boundMargin softCut (0, 40) (25, 40) := by
  have hmargin : 0 ≤ (PlanSettings.usual : PlanSettings Rat).boundMargin := by decide +kernel
  have h : (atFirstKnot [still .stop 40 45]).result = .ok ⟨[(0, 40)], [(0, 40)]⟩ :=
    result_of_intervals (by decide +kernel)
  have h' : (atFirstKnot [still .overtake 10 15, still .stop 40 45]).result =
      .ok ⟨[(15, 40)], [(25, 40)]⟩ := result_of_intervals (by decide +kernel)
  rcases (withSoft_further (.refl _) hmargin h h').2.2 0 (by decide) with
    ⟨_, _, _, _, cut, softCut, hhard, hhard', hsoft, hsoft', hcuts, htight, htight', _⟩
  rw [← Option.some.inj hhard, ← Option.some.inj hhard'] at htight
  rw [← Option.some.inj hsoft, ← Option.some.inj hsoft'] at htight'
  exact ⟨.refl _, hmargin, h, h', cut, softCut, hcuts, htight, htight'⟩

/-- Three further regions that give some of the road back. Stopping behind a car
    that one is to overtake lowers the floor from 15 to 9.9, the margin below the
    stop. A stop behind the start puts a ceiling that was nearer than the margin
    to the margin. Overtaking a car beyond a stop lowers a floor of 9.9375, not
    yet at the ceiling, to 9.9. -/
theorem further_gives_back :
    (∃ corridor corridor', (atFirstKnot [still .overtake 10 15]).result = .ok corridor ∧
      (atFirstKnot [still .stop 10 12, still .overtake 10 15]).result = .ok corridor' ∧
      ¬ List.Forall₂ (fun b b' => b.1 ≤ b'.1) corridor.hard corridor'.hard) ∧
    (∃ corridor corridor', (atFirstKnot [still .stop (1 / 16) 9]).result = .ok corridor ∧
      (atFirstKnot [still .stop (-1) 2, still .stop (1 / 16) 9]).result = .ok corridor' ∧
      ¬ List.Forall₂ (fun b b' => b'.2 ≤ b.2) corridor.hard corridor'.hard) ∧
    (∃ corridor corridor',
      (atFirstKnot [still .stop 10 12, still .overtake 5 (159 / 16)]).result = .ok corridor ∧
      (atFirstKnot [still .overtake 10 15, still .stop 10 12,
        still .overtake 5 (159 / 16)]).result = .ok corridor' ∧
      ¬ List.Forall₂ (fun b b' => b.1 ≤ b'.1) corridor.hard corridor'.hard) := by
  refine ⟨⟨⟨[(15, 100)], [(25, 100)]⟩, ⟨[(99 / 10, 10)], [(99 / 10, 10)]⟩,
      result_of_intervals (by decide +kernel), result_of_intervals (by decide +kernel), ?_⟩,
    ⟨⟨[(0, 1 / 16)], [(0, 1 / 16)]⟩, ⟨[(0, 1 / 10)], [(0, 1 / 10)]⟩,
      result_of_intervals (by decide +kernel), result_of_intervals (by decide +kernel), ?_⟩,
    ⟨⟨[(159 / 16, 10)], [(99 / 10, 10)]⟩, ⟨[(99 / 10, 10)], [(99 / 10, 10)]⟩,
      result_of_intervals (by decide +kernel), result_of_intervals (by decide +kernel), ?_⟩⟩
  all_goals
    rw [List.forall₂_cons]
    norm_num

end Corridor

end JerkPlan
