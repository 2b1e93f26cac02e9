import JerkPlan.Proofs.CorridorEnds

/-!
# Emergency stops

What an emergency stop does to a corridor, and what it leaves alone.

The stop is looked at last, when the regions have cut and whatever has closed
has been opened again. At a time at which it can be read, the hard ceiling is
lifted to where the stop would have led by then, with a margin, if it is not
there yet. Floors and soft intervals are as they were before, and so is the
ceiling of a knot at which the stop cannot be read.

So nothing is lost with a stop. The check at the end asks for a ceiling that is
not below the floor, and a ceiling that has passed it passes it again when it
has been lifted: a corridor that comes about without a stop comes about with
any. Without regions nobody looks at the stop.

All of this is about comparing ceilings with each other. Places may have been
rounded in any way.

## Theorems

* `Corridor.softOpening_braking`: The opening of a knot with an emergency stop.
* `Corridor.withSoft_braking`: The corridor with an emergency stop.
-/

namespace JerkPlan

namespace Corridor

variable {R : Type} [OrderedScalar R] {regions : List (Region R)} {length : R}
  {rough : SpeedSeries R} {c : Comfort R} {p : PlanSettings R}

/-- An emergency stop lifts the hard ceiling of an opening that comes about
    without it, where the stop can be read, and does nothing else. -/
theorem softOpening_braking (hregions : regions ≠ []) {knot : Nat} {t : R} {o : Opening R}
    (h : (softOpening regions length rough none c p knot t).result = .ok o)
    (stop : SpeedSeries R) :
    (softOpening regions length rough (some stop) c p knot t).result =
      .ok (o.relax ((stop.byTime t).map fun here => here.s + p.brakeMargin)) := by
  rw [softOpening_result, stopPlace_none] at h
  rcases bind_eq_ok_iff.mp h with ⟨speed, hspeed, h⟩
  rcases bind_eq_ok_iff.mp h with ⟨o', hcuts, h⟩
  rcases ite_error_ok h with ⟨hopen, h⟩
  -- Without a stop nothing has been lifted.
  have ho : o'.settle p.boundMargin = o := Except.ok.inj h
  have hceiling : ¬ o.upper < o.lower := by
    rw [← ho]
    exact hopen
  rw [softOpening_result, stopPlace_read hregions, Option.bind_some]
  refine bind_eq_ok_iff.mpr ⟨speed, hspeed, bind_eq_ok_iff.mpr ⟨o', hcuts, ?_⟩⟩
  rw [ho]
  refine ite_error_iff.mpr ⟨?_, rfl⟩
  -- The floor is the same and the ceiling no lower, so they have not crossed now either.
  rw [not_lt] at hceiling ⊢
  exact hceiling.trans (o.upper_le_relax _)

/-- What an emergency stop does to a corridor. Without regions it does nothing.
    With regions, if there is a corridor without the stop, there is one with it.
    Its soft intervals and its floors are the same. The ceiling of a knot at whose
    time the stop can be read is the larger of what it was and the place of the
    stop with its margin, and at all other knots it is what it was. -/
theorem withSoft_braking (regions : List (Region R)) (knots : Int) (step length : R)
    (rough stop : SpeedSeries R) (c : Comfort R) (p : PlanSettings R) :
    withSoft [] knots step length rough (some stop) c p =
        withSoft [] knots step length rough none c p ∧
      ∀ corridor, regions ≠ [] →
        (withSoft regions knots step length rough none c p).result = .ok corridor →
        ∃ corridor', (withSoft regions knots step length rough (some stop) c p).result =
            .ok corridor' ∧
          corridor'.soft = corridor.soft ∧ corridor'.hard.length = corridor.hard.length ∧
          ∀ i : Nat, i < knots.toNat → ∃ lower upper,
            corridor.hard[i]? = some (lower, upper) ∧
            corridor'.hard[i]? = some (lower, (stop.byTime ((i : R) * step)).elim upper
              fun here => max upper (here.s + p.brakeMargin)) := by
  refine ⟨rfl, fun corridor hregions h => ?_⟩
  rcases Outcome.bind_ok_iff.mp h with ⟨os, hos, h⟩
  let place (i : Nat) := (stop.byTime ((i : R) * step)).map fun here => here.s + p.brakeMargin
  rcases openings_follow (fun i o o' => o' = o.relax (place i)) hos
    (fun i _ o ho => ⟨_, softOpening_braking hregions ho stop, rfl⟩) with ⟨os', hos', hknot⟩
  refine ⟨_, Outcome.bind_ok_iff.mpr ⟨os', hos', rfl⟩, ?_⟩
  rw [← Except.ok.inj h]
  refine ⟨openings_map_eq hos hos' fun i hi => ?_, ?_, fun i hi => ?_⟩
  · -- Lifting the hard ceiling does not touch the soft interval.
    rcases hknot i hi with ⟨o, o', hentry, hentry', ho⟩
    refine ⟨o, o', hentry, hentry', ?_⟩
    rw [ho]
    rfl
  · rw [List.length_map, List.length_map, length_openings hos', length_openings hos]
  · rcases hknot i hi with ⟨o, o', hentry, hentry', ho⟩
    refine ⟨o.lower, o.upper, ?_, ?_⟩
    · rw [List.getElem?_map, hentry]
      rfl
    · rw [List.getElem?_map, hentry', ho]
      simp only [place]
      rcases stop.byTime ((i : R) * step) with _ | here
      · rfl
      · simp only [Option.map_some, Opening.relax, Option.elim_some, greater_eq_max]

/-! The convoy, and a late stop -/

/-- An emergency stop that begins after a second. -/
def lateStop : SpeedSeries Rat := ⟨[⟨16, 1, 2, 0, 0⟩, ⟨34, 10, 2, 0, 0⟩]⟩

/-- The first knot is before the stop, and at the second one the stop has not got
    as far as the ceiling. At the third knot it is beyond the ceiling. -/
theorem withSoft_braking_convoy :
    convoy ≠ [] ∧
      (withSoft convoy 3 1 50 convoyPlan none .usual .usual).result =
        .ok ⟨[(6, 19), (15, 20), (179 / 10, 18)],
          [(139 / 10, 14), (149 / 10, 15), (159 / 10, 16)]⟩ ∧
      ∃ corridor', (withSoft convoy 3 1 50 convoyPlan (some lateStop) .usual .usual).result =
          .ok corridor' ∧
        corridor'.soft = [(139 / 10, 14), (149 / 10, 15), (159 / 10, 16)] ∧
        corridor'.hard[0]? = some (6, 19) ∧ corridor'.hard[1]? = some (15, 20) ∧
        corridor'.hard[2]? = some (179 / 10, 91 / 5) := by
  have hsome : convoy ≠ [] := List.cons_ne_nil _ _
  have h : (withSoft convoy 3 1 50 convoyPlan none .usual .usual).result =
      .ok ⟨[(6, 19), (15, 20), (179 / 10, 18)],
        [(139 / 10, 14), (149 / 10, 15), (159 / 10, 16)]⟩ := result_of_intervals (by decide +kernel)
  rcases (withSoft_braking convoy 3 1 50 convoyPlan lateStop .usual .usual).2 _ hsome h with
    ⟨corridor', h', hsoft, _, hknot⟩
  have hlifted (i : Nat) (hi : i < 3) (b : Rat × Rat) (upper : Rat)
      (hb : [(6, 19), (15, 20), (179 / 10, 18)][i]? = some b)
      (hupper : ((lateStop.byTime ((i : Rat) * 1)).elim b.2 fun here =>
        max b.2 (here.s + PlanSettings.usual.brakeMargin)) = upper) :
      corridor'.hard[i]? = some (b.1, upper) := by
    rcases hknot i hi with ⟨_, _, hbefore, hafter⟩
    rw [hb, Option.some.injEq] at hbefore
    rw [hafter, ← hupper, hbefore]
  exact ⟨hsome, h, corridor', h', hsoft,
    hlifted 0 (by omega) (6, 19) 19 rfl (by decide +kernel),
    hlifted 1 (by omega) (15, 20) 20 rfl (by decide +kernel),
    hlifted 2 (by omega) (179 / 10, 18) (91 / 5) rfl (by decide +kernel)⟩

end Corridor

end JerkPlan
