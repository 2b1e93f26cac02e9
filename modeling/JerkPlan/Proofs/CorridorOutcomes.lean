import JerkPlan.Proofs.CorridorEnds
import JerkPlan.Proofs.OpenCorridors
import JerkPlan.Proofs.Readings

/-!
# Outcomes of corridors

When a corridor comes about, and what is said when it does not.

In the soft mode every knot has room, so nothing is needed but a speed to expect
wherever there are regions. A rough plan can be read at all knots when it can
be read at the first and at the last. So it is known in advance whether there
will be a corridor, and without one there is a single thing to say.

In the simple mode nothing is opened again. A knot has the interval between
the greatest floor and the least ceiling that regions leave of the whole path,
or it has none because the ceiling is behind the floor. Regions that somebody
knows how to deal with make every cut, so for each knot the two ends are there
before anything is checked. The walk through the knots checks them in order
and stops at the first at which they have crossed. `simple_outcome` puts both
together: which corridor comes about when no ends cross, and which knot is
named when some do. Ends that meet have not crossed.

The soft mode is spoken about in exact arithmetic, since the last knot has to
be the last one in time. In the simple mode the scalars only have to compare
with each other.

## Main definitions

* `SpeedSeries.Spans`: A rough plan from the first knot to the last.

## Theorems

* `Corridor.withSoft_outcome`: The outcome of the soft mode.
* `Corridor.simpleInterval_total`: The ends of a knot, and what becomes of them.
* `Corridor.simple_outcome`: The outcome of the simple mode.
-/

namespace JerkPlan

section Soft

variable {R : Type} [ExactScalar R]

namespace SpeedSeries

/-- A series with two samples that has begun by the first knot and lasts until
    the last one, but for a millionth. -/
structure Spans (d : SpeedSeries R) (knots : Int) (step : R) : Prop where
  length : 2 ≤ d.samples.length
  first : ∀ x, d.samples.head? = some x → x.t < 1 / 10 ^ 6
  last : ∀ x, d.samples.getLast? = some x → ((knots : R) - 1) * step - 1 / 10 ^ 6 < x.t

/-- Such a series can be read at every knot, and no other. -/
theorem spans_iff {d : SpeedSeries R} {knots : Int} {step : R} (hknots : 0 < knots)
    (hstep : 0 < step) :
    d.Spans knots step ↔ ∀ i : Nat, i < knots.toNat → (d.byTime ((i : R) * step)).isSome := by
  have hmillionth : (overhang : R) = 1 / 10 ^ 6 := by
    rw [overhang, decimal_eq, Nat.cast_one]
  have hlast : ((knots.toNat - 1 : Nat) : R) = (knots : R) - 1 := by
    rw [Nat.cast_sub (by omega), Nat.cast_one, ← Int.cast_natCast, Int.toNat_of_nonneg hknots.le]
  rw [byTime_knots_iff (by omega) hstep, hmillionth, hlast]
  exact ⟨fun h => ⟨h.length, h.first, h.last⟩, fun h => ⟨h.1, h.2.1, h.2.2⟩⟩

end SpeedSeries

namespace Corridor

variable {regions : List (Region R)}

/-- The outcome of the soft mode, with regions that somebody knows how to deal
    with. A corridor comes about when there are no regions or no knots, or when
    the rough plan spans the knots. Otherwise the rough plan is missing, and this
    is all that can be said. -/
theorem withSoft_outcome (hknown : ∀ r ∈ regions, r.Known) {p : PlanSettings R}
    (hp : p.checked = .ok p) {step : R} (hstep : 0 < step) (knots : Int) (length : R)
    (rough : SpeedSeries R) (brake : Option (SpeedSeries R)) (c : Comfort R) :
    ((∃ corridor, (withSoft regions knots step length rough brake c p).result = .ok corridor) ↔
      regions = [] ∨ knots ≤ 0 ∨ rough.Spans knots step) ∧
    (¬ (regions = [] ∨ knots ≤ 0 ∨ rough.Spans knots step) →
      (withSoft regions knots step length rough brake c p).result =
        .error (.stage (.input noSpeed))) := by
  have hmargin := ((PlanSettings.checked_iff p).mp hp).margin_pos
  have hneeds : (∃ corridor, (withSoft regions knots step length rough brake c p).result =
      .ok corridor) → regions = [] ∨ knots ≤ 0 ∨ rough.Spans knots step := by
    rintro ⟨corridor, h⟩
    by_cases hregions : regions = []
    · exact Or.inl hregions
    by_cases hknots : knots ≤ 0
    · exact Or.inr (Or.inl hknots)
    · exact Or.inr (Or.inr ((SpeedSeries.spans_iff (not_le.mp hknots) hstep).mpr fun i hi =>
        withSoft_read h hregions hi))
  rcases withSoft_or_unread hmargin hknown with hsome | ⟨he, hregions, i, hi, hnone⟩
  · exact ⟨iff_of_true hsome (hneeds hsome), fun hlacks => absurd (hneeds hsome) hlacks⟩
  · -- There are regions, and a knot at which the rough plan says nothing.
    have hlacks : ¬ (regions = [] ∨ knots ≤ 0 ∨ rough.Spans knots step) := by
      rintro (hempty | hknots | hspans)
      · exact hregions hempty
      · omega
      · have hread := (SpeedSeries.spans_iff (by omega) hstep).mp hspans i hi
        rw [hnone] at hread
        exact absurd hread (by simp only [Option.isSome_none, Bool.false_eq_true,
          not_false_eq_true])
    refine ⟨iff_of_false ?_ hlacks, fun _ => he⟩
    rintro ⟨corridor, h⟩
    rw [he] at h
    exact absurd h (by simp only [reduceCtorEq, not_false_eq_true])

/-! A gap that closes -/

/-- Somebody to follow, and somebody to overtake who is much faster. -/
def closingGap : List (Region Rat) :=
  [⟨.follow, [(0, 24), (9, 33)], [(0, 28), (9, 37)], 5, none⟩,
    ⟨.overtake, [(0, 2), (9, 83)], [(0, 8), (9, 89)], 0, none⟩]

theorem closingGap_known : ∀ r ∈ closingGap, r.Known := by
  intro r hr name hname
  simp only [closingGap, List.mem_cons, List.not_mem_nil, or_false] at hr
  rcases hr with rfl | rfl
  all_goals exact absurd hname (by simp only [reduceCtorEq, not_false_eq_true])

/-- A plan for two seconds that begins a little late and ends a little early. -/
def shortPlan : SpeedSeries Rat :=
  ⟨[⟨0, 1 / 10 ^ 7, 3, 0, 0⟩, ⟨6, 2 - 1 / 10 ^ 7, 3, 0, 0⟩]⟩

/-- The plan is enough for three knots, a second apart, and not for four. -/
theorem withSoft_outcome_closingGap :
    (∀ r ∈ closingGap, r.Known) ∧
      PlanSettings.usual.checked = .ok (PlanSettings.usual : PlanSettings Rat) ∧ (0 : Rat) < 1 ∧
      (∃ corridor, (withSoft closingGap 3 1 50 shortPlan none .usual .usual).result =
        .ok corridor) ∧
      (withSoft closingGap 4 1 50 shortPlan none .usual .usual).result =
        .error (.stage (.input noSpeed)) := by
  have houtcome (knots : Int) := withSoft_outcome closingGap_known PlanSettings.usual_checked
    one_pos knots 50 shortPlan none .usual
  have hspans : shortPlan.Spans 3 1 := by
    refine ⟨le_rfl, fun x hx => ?_, fun x hx => ?_⟩
    · rw [← Option.some.inj hx]
      norm_num
    · rw [← Option.some.inj hx]
      norm_num
  have hends : ¬ shortPlan.Spans 4 1 := by
    intro h
    exact absurd (h.last _ rfl) (by norm_num)
  refine ⟨closingGap_known, PlanSettings.usual_checked, one_pos,
    (houtcome 3).1.mpr (Or.inr (Or.inr hspans)), (houtcome 4).2 ?_⟩
  rintro (hempty | hknots | h)
  · exact absurd hempty (List.cons_ne_nil _ _)
  · exact absurd hknots (by decide)
  · exact hends h

end Corridor

end Soft

namespace Corridor

section Simple

variable {R : Type} [OrderedScalar R] {regions : List (Region R)}

/-- Known regions leave an interval of the whole path at any time, and a knot
    has this interval unless its ends have crossed. -/
theorem simpleInterval_total (hknown : ∀ r ∈ regions, r.Known) (length : R) (p : PlanSettings R)
    (t : R) :
    ∃ b, CutBy t (Region.simpleCeiling p t) (Region.hardFloor t) regions (0, length) b ∧
      ∀ knot : Nat, (simpleInterval regions length p knot t).result =
        if b.2 < b.1 then .error (.stage (.corridor crossed (some knot))) else .ok b := by
  have hcuts := foldlM_total (f := simpleCut p t) regions (fun r hr b => by
    rcases simpleCut_move (hknown r hr) p t with ⟨m, _, hm⟩
    exact ⟨(m ⟨b.1, b.2, b.1, b.2⟩).hard, hm ⟨b.1, b.2, b.1, b.2⟩⟩) (0, length)
  rcases hcuts with ⟨b, hb⟩
  refine ⟨b, CutBy.run (fun _ _ _ => simpleCut_cutBy) regions _ _ hb, fun knot => ?_⟩
  rw [simpleInterval_result, hb]
  rfl

/-- The outcome of the simple mode. At each knot the regions leave an interval
    of the whole path, whose ends are their greatest floor and their least
    ceiling then. The corridor is made of these intervals, without soft ones, if
    no ends cross. Else it fails and names the first knot at which they do. -/
theorem simple_outcome (hknown : ∀ r ∈ regions, r.Known) (knots : Int) (step length : R)
    (p : PlanSettings R) :
    ∃ b : Nat → R × R,
      (∀ i : Nat, CutBy ((i : R) * step) (Region.simpleCeiling p ((i : R) * step))
        (Region.hardFloor ((i : R) * step)) regions (0, length) (b i)) ∧
      ((∀ i, i < knots.toNat → (b i).1 ≤ (b i).2) →
        (simple regions knots step length p).result =
          .ok ⟨(List.range knots.toNat).map b, []⟩) ∧
      (¬ (∀ i, i < knots.toNat → (b i).1 ≤ (b i).2) →
        ∃ k : Nat, IsLeast {i | i < knots.toNat ∧ (b i).2 < (b i).1} k ∧
          (simple regions knots step length p).result =
            .error (.stage (.corridor crossed (some k)))) := by
  choose b hcuts hresult using simpleInterval_total hknown length p
  have hok (i : Nat) (h : (b ((i : R) * step)).1 ≤ (b ((i : R) * step)).2) :
      (simpleInterval regions length p i ((i : R) * step)).result = .ok (b ((i : R) * step)) := by
    rw [hresult, if_neg (not_lt.mpr h)]
  refine ⟨fun i => b ((i : R) * step), fun i => hcuts _, fun hopen => ?_, fun hclosed => ?_⟩
  · exact Outcome.bind_ok_iff.mpr ⟨_, openings_eq_ok fun i hi => hok i (hopen i hi), rfl⟩
  · -- The first of the knots that have closed is the one at which the walk stops.
    have hsome : ∃ k : Nat, k < knots.toNat ∧ (b ((k : R) * step)).2 < (b ((k : R) * step)).1 := by
      simp only [not_forall, not_le] at hclosed
      rcases hclosed with ⟨k, hk, hcrossed⟩
      exact ⟨k, hk, hcrossed⟩
    rcases Nat.find_spec hsome with ⟨hk, hcrossed⟩
    refine ⟨Nat.find hsome, ⟨⟨hk, hcrossed⟩, fun i hi => Nat.find_min' hsome hi⟩, ?_⟩
    refine Outcome.bind_error_iff.mpr (Or.inl (openings_eq_error hk (fun i hi => ?_) ?_))
    · have hearlier := Nat.find_min hsome hi
      rw [not_and, not_lt] at hearlier
      exact ⟨_, hok i (hearlier (hi.trans hk))⟩
    · rw [hresult, if_pos hcrossed]

/-! The gap again -/

/-- The knot at which a corridor has failed, where that is known. -/
def failedAt : Except (Failure R) (Corridor R) → Option Int
  | .error (.stage (.corridor _ knot)) => knot
  | _ => none

/-- After a second the ends of the gap meet, which is still a corridor. After two
    they have crossed, and of four knots the third is named. -/
theorem simple_outcome_closingGap :
    (∀ r ∈ closingGap, r.Known) ∧
      (simple closingGap 2 1 50 .usual).result = .ok ⟨[(8, 16), (17, 17)], []⟩ ∧
      ∃ b : Nat → Rat × Rat,
        (∀ i : Nat, CutBy ((i : Rat) * 1) (Region.simpleCeiling .usual ((i : Rat) * 1))
          (Region.hardFloor ((i : Rat) * 1)) closingGap (0, 50) (b i)) ∧
        IsLeast {i | i < (4 : Int).toNat ∧ (b i).2 < (b i).1} 2 ∧
        (simple closingGap 4 1 50 .usual).result = .error (.stage (.corridor crossed (some 2))) := by
  have hthird : failedAt (simple closingGap 4 1 50 .usual).result = some 2 := by decide +kernel
  refine ⟨closingGap_known, result_of_intervals (by decide +kernel), ?_⟩
  rcases simple_outcome closingGap_known 4 1 50 .usual with ⟨b, hcuts, hopen, hclosed⟩
  by_cases hall : ∀ i, i < (4 : Int).toNat → (b i).1 ≤ (b i).2
  · rw [hopen hall] at hthird
    exact absurd hthird (Option.some_ne_none _).symm
  · rcases hclosed hall with ⟨k, hleast, hresult⟩
    rw [hresult] at hthird
    have hk : k = 2 := Int.ofNat_inj.mp (Option.some.inj hthird)
    subst hk
    exact ⟨b, hcuts, hleast, hresult⟩

end Simple

end Corridor

end JerkPlan
