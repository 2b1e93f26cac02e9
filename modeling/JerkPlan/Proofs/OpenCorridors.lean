import JerkPlan.Proofs.CheckedSettings
import JerkPlan.Proofs.CorridorKnots

/-!
# Corridors stay open

In the soft mode no knot is ever left without room.

However many regions cut into an opening, and even when the path has no length
left, the two intervals of a knot end up with their floor below their ceiling
and their ceiling ahead of the start. The margin of checked settings is
positive and does all of it: closing is undone by `clampPair` whatever the ends
were before, and an emergency stop can only lift a ceiling. The failure of a
corridor that closes belongs to the simple mode alone.

What can still go wrong is told apart exactly. Regions may be dealt with in an
unknown way, and the rough plan may end before the last knot.

## Main definitions

* `Opening.Open`: Both intervals have room ahead of the start.

## Theorems

* `clampPair_open`: An interval is open after it has been opened again.
* `Opening.settle_open`, `Opening.relax_open`: Both moves leave room.
* `Corridor.softOpening_ok`, `Corridor.softOpening_error`: The outcomes of one
  knot.
* `Corridor.withSoft_read`, `Corridor.withSoft_or_unread`: What a corridor needs of
  the rough plan.
* `Corridor.withSoft_open`: The outcomes of a corridor.
-/

namespace JerkPlan

variable {R : Type} [ExactScalar R]

/-- The ceiling ends up above the base and the floor below the ceiling, from
    any two ends. -/
theorem clampPair_open {lower upper base margin : R} (h : 0 < margin) :
    (clampPair lower upper base margin).1 < (clampPair lower upper base margin).2 ∧
      base < (clampPair lower upper base margin).2 := by
  -- The floor is looked at after the ceiling has been settled.
  have hfloor (ceiling : R) : (if ceiling ≤ lower then ceiling - margin else lower) < ceiling := by
    by_cases hclosed : ceiling ≤ lower
    · rw [if_pos hclosed]
      exact sub_lt_self ceiling h
    · rw [if_neg hclosed]
      exact not_le.mp hclosed
  have hceiling : base < if upper ≤ base then base + margin else upper := by
    by_cases hbelow : upper ≤ base
    · rw [if_pos hbelow]
      exact lt_add_of_pos_right base h
    · rw [if_neg hbelow]
      exact not_le.mp hbelow
  exact ⟨hfloor _, hceiling⟩

namespace Opening

/-- Both intervals have their floor below their ceiling, and some of the road
    ahead. -/
def Open (o : Opening R) : Prop :=
  (o.lower < o.upper ∧ 0 < o.upper) ∧ o.softLower < o.softUpper ∧ 0 < o.softUpper

theorem settle_open (o : Opening R) {margin : R} (h : 0 < margin) : (o.settle margin).Open :=
  ⟨clampPair_open h, clampPair_open h⟩

/-- Lifting the hard ceiling leaves room where there was some. -/
theorem relax_open {o : Opening R} (h : o.Open) (place : Option R) : (o.relax place).Open := by
  rcases h with ⟨⟨hlower, hupper⟩, hsoft⟩
  have hlift := o.upper_le_relax place
  exact ⟨⟨hlower.trans_le hlift, hupper.trans_le hlift⟩, hsoft⟩

end Opening

namespace Corridor

variable {regions : List (Region R)} {length : R} {rough : SpeedSeries R}
  {brake : Option (SpeedSeries R)} {c : Comfort R} {p : PlanSettings R} {knot : Nat} {t : R}

/-- A region cuts off what it needs, unless nobody knows how to deal with it. -/
theorem cut_error {speed : R} {o : Opening R} {r : Region R} {e : Failure R}
    (h : cut c p t speed o r = .error e) :
    ∃ kind, r.manoeuvre = .other kind ∧ e = .invalid (.regionKind kind) := by
  unfold cut at h
  split at h
  · exact absurd h (by simp only [reduceCtorEq, not_false_eq_true])
  · split at h
    case h_5 hkind _ => exact ⟨_, hkind, (Except.error.inj h).symm⟩
    all_goals exact absurd h (by simp only [reduceCtorEq, not_false_eq_true])

/-- An opening that comes about is open. -/
theorem softOpening_ok {o : Opening R} (hmargin : 0 < p.boundMargin)
    (h : (softOpening regions length rough brake c p knot t).result = .ok o) : o.Open := by
  rw [softOpening_result] at h
  rcases bind_eq_ok_iff.mp h with ⟨speed, _, h⟩
  rcases bind_eq_ok_iff.mp h with ⟨o', _, h⟩
  rcases ite_error_ok h with ⟨_, h⟩
  rw [← Except.ok.inj h]
  exact Opening.relax_open (o'.settle_open hmargin) _

/-- An opening that does not come about lacks the expected speed or a way of
    dealing with a region. It is never closed. -/
theorem softOpening_error {e : Failure R} (hmargin : 0 < p.boundMargin)
    (h : (softOpening regions length rough brake c p knot t).result = .error e) :
    (e = .stage (.input noSpeed) ∧ regions ≠ [] ∧ rough.byTime t = none) ∨
      ∃ r ∈ regions, ∃ kind, r.manoeuvre = .other kind ∧ e = .invalid (.regionKind kind) := by
  rw [softOpening_result] at h
  rcases bind_eq_error_iff.mp h with hspeed | ⟨speed, _, h⟩
  · exact Or.inl (expectedSpeed_error hspeed)
  · rcases bind_eq_error_iff.mp h with hcut | ⟨o, _, h⟩
    · rcases foldlM_eq_error regions _ hcut with ⟨o, r, hr, hcut⟩
      rcases cut_error hcut with ⟨kind, hkind, he⟩
      exact Or.inr ⟨r, hr, kind, hkind, he⟩
    · -- What is open has not closed.
      have hopen := Opening.relax_open (o.settle_open hmargin) (stopPlace regions brake p t)
      rw [if_neg (not_lt.mpr hopen.1.1.le)] at h
      exact absurd h (by simp only [reduceCtorEq, not_false_eq_true])

/-- A corridor that does not come about fails as one of its knots does. -/
theorem withSoft_error {knots : Int} {step : R} {e : Failure R} (hmargin : 0 < p.boundMargin)
    (h : (withSoft regions knots step length rough brake c p).result = .error e) :
    (e = .stage (.input noSpeed) ∧ regions ≠ [] ∧
      ∃ i : Nat, i < knots.toNat ∧ rough.byTime ((i : R) * step) = none) ∨
    ∃ r ∈ regions, ∃ kind, r.manoeuvre = .other kind ∧ e = .invalid (.regionKind kind) := by
  rcases Outcome.bind_error_iff.mp h with h | ⟨os, _, h⟩
  · rcases openings_error _ 0 h with ⟨x, hx, hknot⟩
    rcases mem_knotTimes.mp hx with ⟨hi, ht⟩
    rcases softOpening_error hmargin hknot with ⟨he, hregions, hrough⟩ | hkind
    · rw [ht] at hrough
      exact Or.inl ⟨he, hregions, x.2, hi, hrough⟩
    · exact Or.inr hkind
  · exact absurd h (by simp only [Outcome.result_pure, reduceCtorEq, not_false_eq_true])

/-- A corridor that comes about has found a speed at every knot. -/
theorem withSoft_read {knots : Int} {step : R} {corridor : Corridor R}
    (h : (withSoft regions knots step length rough brake c p).result = .ok corridor)
    (hregions : regions ≠ []) {i : Nat} (hi : i < knots.toNat) :
    (rough.byTime ((i : R) * step)).isSome := by
  rcases withSoft_entry h hi with ⟨o, ho, _⟩
  rw [softOpening_result] at ho
  rcases bind_eq_ok_iff.mp ho with ⟨speed, hspeed, _⟩
  rcases expectedSpeed_ok hspeed hregions with ⟨here, hhere, _⟩
  rw [hhere, Option.isSome_some]

/-- A corridor that does not come about, though one knows how to deal with all
    of its regions, lacks the speed at some knot. -/
theorem withSoft_or_unread {knots : Int} {step : R} (hmargin : 0 < p.boundMargin)
    (hkinds : ∀ r ∈ regions, ∀ kind, r.manoeuvre ≠ .other kind) :
    (∃ corridor, (withSoft regions knots step length rough brake c p).result = .ok corridor) ∨
      (withSoft regions knots step length rough brake c p).result =
        .error (.stage (.input noSpeed)) ∧ regions ≠ [] ∧
          ∃ i : Nat, i < knots.toNat ∧ rough.byTime ((i : R) * step) = none := by
  rcases hresult : (withSoft regions knots step length rough brake c p).result with e | corridor
  · rcases withSoft_error hmargin hresult with ⟨rfl, hlacks⟩ | ⟨r, hr, kind, hkind, _⟩
    · exact Or.inr ⟨rfl, hlacks⟩
    · exact absurd hkind (hkinds r hr kind)
  · exact Or.inl ⟨corridor, rfl⟩

/-- A corridor with soft intervals has a hard and a soft one for each knot, all
    of them open ahead of the start. The corridor never closes: without it,
    the rough plan says nothing about the time of some knot, or nobody knows
    how to deal with some region. -/
theorem withSoft_open (regions : List (Region R)) (knots : Int) (step length : R)
    (rough : SpeedSeries R) (brake : Option (SpeedSeries R)) (c : Comfort R) (p : PlanSettings R)
    (hp : p.checked = .ok p) :
    (∀ corridor, (withSoft regions knots step length rough brake c p).result = .ok corridor →
      corridor.hard.length = knots.toNat ∧ corridor.soft.length = knots.toNat ∧
        ∀ b ∈ corridor.hard ++ corridor.soft, b.1 < b.2 ∧ 0 < b.2) ∧
    (∀ e, (withSoft regions knots step length rough brake c p).result = .error e →
      (e = .stage (.input noSpeed) ∧ regions ≠ [] ∧
        ∃ i : Nat, i < knots.toNat ∧ rough.byTime ((i : R) * step) = none) ∨
      ∃ r ∈ regions, ∃ kind, r.manoeuvre = .other kind ∧ e = .invalid (.regionKind kind)) ∧
    ∀ reason knot, (withSoft regions knots step length rough brake c p).result ≠
      .error (.stage (.corridor reason knot)) := by
  have hmargin := ((PlanSettings.checked_iff p).mp hp).margin_pos
  refine ⟨?_, fun e => withSoft_error hmargin, ?_⟩
  · intro corridor h
    rcases length_withSoft h with ⟨hhard, hsoft⟩
    refine ⟨hhard, hsoft, ?_⟩
    rcases Outcome.bind_ok_iff.mp h with ⟨os, hos, h⟩
    have hopen : ∀ o ∈ os, o.Open := of_openings hos fun _ _ _ => softOpening_ok hmargin
    rw [← Except.ok.inj h]
    -- Hard and soft ends come from the same openings.
    intro b hb
    rcases List.mem_append.mp hb with hb | hb
    all_goals rcases List.mem_map.mp hb with ⟨o, ho, rfl⟩
    · exact (hopen o ho).1
    · exact (hopen o ho).2
  · intro reason knot h
    rcases withSoft_error hmargin h with ⟨he, _⟩ | ⟨_, _, _, _, he⟩
    all_goals exact absurd he (by simp only [Failure.stage.injEq, reduceCtorEq, not_false_eq_true])

/-! A road without room -/

/-- The corridor between somebody in front and somebody to overtake further
    ahead, on a path that has no length left. -/
def squeezed : Outcome Rat (Corridor Rat) :=
  withSoft
    [⟨.follow, [(0, 5), (9, 5)], [(0, 8), (9, 8)], 4, some (1, 6)⟩,
      ⟨.overtake, [(0, 20), (9, 20)], [(0, 30), (9, 30)], 2, none⟩]
    2 1 (-1) ⟨[⟨0, 0, 3, 0, 0⟩, ⟨27, 9, 3, 0, 0⟩]⟩ (some ⟨[⟨0, 0, 3, 0, 0⟩, ⟨9, 9, 0, 0, 0⟩]⟩)
    .usual .usual

/-- With nothing left of the road, every interval is still open. -/
theorem withSoft_open_squeezed :
    PlanSettings.usual.checked = .ok (PlanSettings.usual : PlanSettings Rat) ∧
      ∃ corridor, squeezed.result = .ok corridor ∧ corridor.hard.length = 2 ∧
        corridor.soft.length = 2 ∧ ∀ b ∈ corridor.hard ++ corridor.soft, b.1 < b.2 ∧ 0 < b.2 := by
  have hsome : squeezed.result.isOk = true := by decide +kernel
  refine ⟨PlanSettings.usual_checked, ?_⟩
  rcases hresult : squeezed.result with e | corridor
  · rw [hresult] at hsome
    exact absurd hsome Bool.false_ne_true
  · exact ⟨corridor, rfl, (withSoft_open _ _ _ _ _ _ _ _ PlanSettings.usual_checked).1 corridor hresult⟩

end Corridor

end JerkPlan
