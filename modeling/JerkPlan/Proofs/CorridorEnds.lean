import Mathlib.Order.Bounds.Basic
import JerkPlan.Proofs.CheckedSettings
import JerkPlan.Proofs.RegionCuts
import JerkPlan.Proofs.SoftCeilings

/-!
# The ends of a corridor

Where the intervals of a corridor begin and end.

Cuts are made one after the other, but what they leave can be said at once. At
the time of a knot some regions are active, and each of these has a ceiling or
a floor. What is left of an interval ends at the least of the ceilings and of
its own, and begins at the greatest of the floors and of its own. `CutBy` says
this for one way of reading ceilings and floors off a region. There are three
such ways, for hard and for soft intervals and for those of the simple mode,
and one induction for all of them, `CutBy.run`.

In the soft mode an interval that has closed is opened again. So a ceiling is
never behind the start, but a floor can be: the margin below a ceiling that is
nearer than the margin. `compile_floors` says that this happens exactly where
such a ceiling has come down upon a floor, and nowhere in the simple mode.

## Main definitions

* `Region.ActiveAt`: The times at which a region constrains anything.
* `Region.hardCeiling`, `Region.softCeiling`, `Region.simpleCeiling`: How far a
  region lets one go.
* `Region.hardFloor`, `Region.softFloor`: How far it wants one to have come.
* `Corridor.asked`: What active regions ask for.
* `Corridor.CutBy`: What regions leave of an interval.
* `Corridor.reopen`: An interval that is opened again where it has closed.
* `Corridor.CutAt`, `Corridor.Composed`: The intervals of a knot in the soft mode,
  before what has closed is opened again and after.
* `Corridor.Grounded`: Where the floor of such an interval is.

## Theorems

* `Corridor.CutBy.cons`, `Corridor.CutBy.run`: One more region, and all of them.
* `Corridor.CutBy.unique`, `Corridor.CutBy.congr`, `Corridor.CutBy.narrows`: What is
  left is one interval, known by what is read off the regions, and less for more
  regions.
* `Corridor.CutBy.upper_eq`, `Corridor.CutBy.lower_eq`: A further region moves only the
  ends that it asks for.
* `Corridor.cut_cutBy`, `Corridor.simpleCut_cutBy`: One cut in either mode.
* `Corridor.simpleInterval_cutBy`, `Corridor.softOpening_composed`: The ends of
  one knot.
* `Corridor.withSoft_composed`: The ends of a corridor with soft intervals.
* `Corridor.compile_floors`: The floors of a corridor.
* `Corridor.compile_floor_behind`: A floor behind the start.
-/

namespace JerkPlan

namespace Region

section Ends

variable {R : Type} [OrderedScalar R]

/-- The times at which a region constrains anything. -/
def ActiveAt (r : Region R) (t : R) : Prop := r.startTime ≤ t ∧ t ≤ r.endTime

/-- How far a region lets one go at most: up to its edge if one stops there,
    else up to the gap before it. -/
def hardCeiling (t : R) (r : Region R) : Option R :=
  match r.manoeuvre with
  | .stop => some (edgeAt r.lower t)
  | .yield | .follow => some (edgeAt r.lower t - r.gap t)
  | .overtake | .other _ => none

/-- How far one would like to go at most. Behind others one keeps the gap, or
    more at a higher speed. -/
def softCeiling (c : Comfort R) (speed t : R) (r : Region R) : Option R :=
  match r.manoeuvre with
  | .stop | .yield => some (edgeAt r.lower t)
  | .follow =>
    some (edgeAt r.lower t -
      max (r.gap t) (c.followDistance + min c.followCap (c.followTime * max 0 speed)))
  | .overtake | .other _ => none

/-- How far a region lets one go at most with fixed margins. -/
def simpleCeiling (p : PlanSettings R) (t : R) (r : Region R) : Option R :=
  match r.manoeuvre with
  | .stop | .yield => some (edgeAt r.lower t)
  | .follow => some (edgeAt r.lower t - p.followMargin)
  | .overtake | .other _ => none

/-- How far a region wants one to have come at least. -/
def hardFloor (t : R) (r : Region R) : Option R :=
  match r.manoeuvre with
  | .overtake => some (max 0 (edgeAt r.upper t))
  | _ => none

/-- How far one would like to have come at least. -/
def softFloor (p : PlanSettings R) (t : R) (r : Region R) : Option R :=
  (r.hardFloor t).map (· + p.overtakeMargin)

/-- A region that is not active leaves everything. -/
theorem passage_idle {r : Region R} {t : R} (h : ¬ r.ActiveAt t) : r.passage t = none := by
  refine if_pos ?_
  rw [ActiveAt, not_and_or, not_le, not_le] at h
  exact h

/-- What an active region leaves is on one side of an edge. -/
theorem passage_active {r : Region R} {t : R} (h : r.ActiveAt t) :
    r.passage t = match r.manoeuvre with
      | .overtake => some (.above (max 0 (edgeAt r.upper t)))
      | _ => some (.below (edgeAt r.lower t)) := by
  have hnone : ¬ (t < r.startTime ∨ r.endTime < t) := by
    rw [not_or, not_lt, not_lt]
    exact h
  rw [passage, if_neg hnone]
  cases r.manoeuvre <;> simp only [greater_eq_max]

end Ends

end Region

/-- The least element of a set, followed by the least of another set with it, is
    the least of both. -/
theorem isLeast_insert_union {α : Type} [LinearOrder α] {a m m' : α} {s u : Set α}
    (h : IsLeast (insert a s) m) (h' : IsLeast (insert m u) m') : IsLeast (insert a (s ∪ u)) m' := by
  have hle : m' ≤ m := h'.2 (Set.mem_insert m u)
  rw [← Set.insert_union]
  constructor
  · rcases h'.1 with rfl | hmem
    · exact Or.inl h.1
    · exact Or.inr hmem
  · rintro x (hx | hx)
    · exact hle.trans (h.2 hx)
    · exact h'.2 (Set.mem_insert_of_mem m hx)

/-- A list with one more entry has those that were there before. -/
theorem subset_of_perm_cons {α : Type} {x : α} {xs ys : List α} (h : ys.Perm (x :: xs)) :
    xs ⊆ ys :=
  fun _ hy => h.mem_iff.mpr (List.mem_cons_of_mem x hy)

namespace Opening

/-- The soft interval of an opening. -/
def soft {R : Type} (o : Opening R) : R × R := (o.softLower, o.softUpper)

end Opening

namespace Corridor

section Ordered

variable {R : Type} [OrderedScalar R] {t : R} {reading ceiling floor : Region R → Option R}
  {regions : List (Region R)} {r : Region R}

/-- What the regions that are active at a time ask for, as read off each of them. -/
def asked (t : R) (reading : Region R → Option R) (regions : List (Region R)) : Set R :=
  {x | ∃ r ∈ regions, r.ActiveAt t ∧ reading r = some x}

theorem asked_cons :
    asked t reading (r :: regions) = asked t reading [r] ∪ asked t reading regions := by
  ext x
  simp only [asked, List.mem_cons, List.not_mem_nil, or_false, exists_eq_or_imp, exists_eq_left,
    Set.mem_ofPred_eq, Set.mem_union]

theorem asked_single {x : R} (hactive : r.ActiveAt t) (hx : reading r = some x) :
    asked t reading [r] = {x} := by
  ext y
  simp only [asked, List.mem_cons, List.not_mem_nil, or_false, exists_eq_left, hactive, hx, true_and,
    Option.some.injEq, Set.mem_ofPred_eq, Set.mem_singleton_iff]
  exact eq_comm

theorem asked_idle (h : ∀ r ∈ regions, r.ActiveAt t → reading r = none) :
    asked t reading regions = ∅ := by
  rw [Set.eq_empty_iff_forall_notMem]
  rintro x ⟨r, hr, hactive, hx⟩
  rw [h r hr hactive] at hx
  exact absurd hx (by simp only [reduceCtorEq, not_false_eq_true])

/-- More regions ask for more. -/
theorem asked_mono {regions' : List (Region R)} (h : regions ⊆ regions') :
    asked t reading regions ⊆ asked t reading regions' := by
  rintro x ⟨r, hr, hx⟩
  exact ⟨r, h hr, hx⟩

/-- A region that asks for nothing adds nothing to what is asked for. -/
theorem asked_silent {regions' : List (Region R)} (hperm : regions'.Perm (r :: regions))
    (h : reading r = none) : asked t reading regions' = asked t reading regions := by
  refine Set.Subset.antisymm ?_ (asked_mono (subset_of_perm_cons hperm))
  rintro x ⟨r', hr', hactive, hx⟩
  rcases List.mem_cons.mp (hperm.mem_iff.mp hr') with rfl | hr'
  · rw [h] at hx
    exact absurd hx (Option.some_ne_none x).symm
  · exact ⟨r', hr', hactive, hx⟩

/-- What is asked for depends on what is read off the regions, and on nothing else. -/
theorem asked_congr {reading' : Region R → Option R}
    (h : ∀ r ∈ regions, reading r = reading' r) :
    asked t reading regions = asked t reading' regions := by
  ext x
  constructor
  · rintro ⟨r, hr, hactive, hx⟩
    exact ⟨r, hr, hactive, (h r hr) ▸ hx⟩
  · rintro ⟨r, hr, hactive, hx⟩
    exact ⟨r, hr, hactive, (h r hr).symm ▸ hx⟩

/-- What regions leave of an interval at a time, given the ceiling or the floor
    of each. The interval `b` becomes `b'`. -/
structure CutBy (t : R) (ceiling floor : Region R → Option R) (regions : List (Region R))
    (b b' : R × R) : Prop where
  upper : IsLeast (insert b.2 (asked t ceiling regions)) b'.2
  lower : IsGreatest (insert b.1 (asked t floor regions)) b'.1

namespace CutBy

variable {b b' b'' : R × R}

/-- Regions that ask for nothing leave all of it. -/
theorem idle (hceiling : ∀ r ∈ regions, r.ActiveAt t → ceiling r = none)
    (hfloor : ∀ r ∈ regions, r.ActiveAt t → floor r = none) :
    CutBy t ceiling floor regions b b := by
  constructor
  · rw [asked_idle hceiling, insert_empty_eq]
    exact isLeast_singleton
  · rw [asked_idle hfloor, insert_empty_eq]
    exact isGreatest_singleton

theorem idle_of_not (h : ¬ r.ActiveAt t) : CutBy t ceiling floor [r] b b := by
  refine idle (fun r' hr' hactive => ?_) fun r' hr' hactive => ?_
  all_goals
    rw [List.mem_singleton.mp hr'] at hactive
    exact absurd hactive h

/-- A region with a ceiling lowers that of the interval. -/
theorem cap {x : R} (hactive : r.ActiveAt t) (hceiling : ceiling r = some x)
    (hfloor : floor r = none) : CutBy t ceiling floor [r] b (b.1, lesser b.2 x) := by
  constructor
  · rw [asked_single hactive hceiling, lesser_eq_min]
    exact isLeast_singleton.insert b.2
  · rw [asked_idle (by simp only [List.mem_singleton, forall_eq, hfloor, implies_true]),
      insert_empty_eq]
    exact isGreatest_singleton

/-- A region with a floor raises that of the interval. -/
theorem raise {x : R} (hactive : r.ActiveAt t) (hfloor : floor r = some x)
    (hceiling : ceiling r = none) : CutBy t ceiling floor [r] b (greater b.1 x, b.2) := by
  constructor
  · rw [asked_idle (by simp only [List.mem_singleton, forall_eq, hceiling, implies_true]),
      insert_empty_eq]
    exact isLeast_singleton
  · rw [asked_single hactive hfloor, greater_eq_max]
    exact isGreatest_singleton.insert b.1

/-- What one region leaves, and others leave of that, is what all of them leave. -/
theorem cons (h : CutBy t ceiling floor [r] b b') (h' : CutBy t ceiling floor regions b' b'') :
    CutBy t ceiling floor (r :: regions) b b'' := by
  constructor
  · rw [asked_cons]
    exact isLeast_insert_union h.upper h'.upper
  · rw [asked_cons]
    exact isLeast_insert_union h.lower.dual h'.lower.dual

/-- A run over regions leaves of an interval what they leave together, if each
    step leaves what its region does. -/
theorem run {α : Type} {f : α → Region R → Except (Failure R) α} {interval : α → R × R}
    (hstep : ∀ r o o', f o r = .ok o' → CutBy t ceiling floor [r] (interval o) (interval o'))
    (regions : List (Region R)) : ∀ o o', regions.foldlM f o = .ok o' →
      CutBy t ceiling floor regions (interval o) (interval o') := by
  induction regions with
  | nil =>
      intro o o' h
      rw [← Except.ok.inj h]
      exact idle (fun r hr => absurd hr List.not_mem_nil) fun r hr => absurd hr List.not_mem_nil
  | cons r regions ih =>
      intro o o' h
      rw [List.foldlM_cons] at h
      rcases bind_eq_ok_iff.mp h with ⟨o₁, hfirst, h⟩
      exact (hstep r o o₁ hfirst).cons (ih o₁ o' h)

/-- Regions leave one interval of another. -/
theorem unique (h : CutBy t ceiling floor regions b b') (h' : CutBy t ceiling floor regions b b'') :
    b' = b'' :=
  Prod.ext (h.lower.unique h'.lower) (h.upper.unique h'.upper)

/-- What they leave depends on the ceilings and floors that are read off them. -/
theorem congr {ceiling' floor' : Region R → Option R} (h : CutBy t ceiling floor regions b b')
    (hceiling : ∀ r ∈ regions, ceiling r = ceiling' r)
    (hfloor : ∀ r ∈ regions, floor r = floor' r) : CutBy t ceiling' floor' regions b b' := by
  constructor
  · rw [← asked_congr hceiling]
    exact h.upper
  · rw [← asked_congr hfloor]
    exact h.lower

/-- More regions leave less. -/
theorem narrows {regions' : List (Region R)} (hsub : regions ⊆ regions')
    (h : CutBy t ceiling floor regions b b') (h' : CutBy t ceiling floor regions' b b'') :
    b'.1 ≤ b''.1 ∧ b''.2 ≤ b'.2 :=
  ⟨h.lower.mono h'.lower (Set.insert_subset_insert (asked_mono hsub)),
    h.upper.mono h'.upper (Set.insert_subset_insert (asked_mono hsub))⟩

/-- A further region without a ceiling leaves the end where it is. -/
theorem upper_eq {regions' : List (Region R)} (hperm : regions'.Perm (r :: regions))
    (hsilent : ceiling r = none) (h : CutBy t ceiling floor regions b b')
    (h' : CutBy t ceiling floor regions' b b'') : b''.2 = b'.2 := by
  have hupper := h'.upper
  rw [asked_silent hperm hsilent] at hupper
  exact hupper.unique h.upper

/-- One without a floor leaves the beginning where it is. -/
theorem lower_eq {regions' : List (Region R)} (hperm : regions'.Perm (r :: regions))
    (hsilent : floor r = none) (h : CutBy t ceiling floor regions b b')
    (h' : CutBy t ceiling floor regions' b b'') : b''.1 = b'.1 := by
  have hlower := h'.lower
  rw [asked_silent hperm hsilent] at hlower
  exact hlower.unique h.lower

/-- Whatever regions ask for, a floor is nowhere behind where it was. -/
theorem lower_le (h : CutBy t ceiling floor regions b b') : b.1 ≤ b'.1 :=
  h.lower.2 (Set.mem_insert _ _)

end CutBy

/-- One cut leaves of both intervals what its region asks for. -/
theorem cut_cutBy {c : Comfort R} {p : PlanSettings R} {speed : R} {o o' : Opening R}
    (h : cut c p t speed o r = .ok o') :
    CutBy t (Region.hardCeiling t) (Region.hardFloor t) [r] o.hard o'.hard ∧
      CutBy t (Region.softCeiling c speed t) (Region.softFloor p t) [r] o.soft o'.soft := by
  unfold cut at h
  by_cases hactive : r.ActiveAt t
  · rw [Region.passage_active hactive] at h
    cases hkind : r.manoeuvre with
    | stop | yield =>
        rw [hkind] at h
        rw [← Except.ok.inj h]
        exact ⟨.cap hactive (by simp only [Region.hardCeiling, hkind])
            (by simp only [Region.hardFloor, hkind]),
          .cap hactive (by simp only [Region.softCeiling, hkind])
            (by simp only [Region.softFloor, Region.hardFloor, hkind, Option.map_none])⟩
    | follow =>
        rw [hkind] at h
        rw [← Except.ok.inj h]
        exact ⟨.cap hactive (by simp only [Region.hardCeiling, hkind])
            (by simp only [Region.hardFloor, hkind]),
          .cap hactive (by simp only [Region.softCeiling, hkind, followDistance, greater_eq_max,
              lesser_eq_min])
            (by simp only [Region.softFloor, Region.hardFloor, hkind, Option.map_none])⟩
    | overtake =>
        rw [hkind] at h
        rw [← Except.ok.inj h]
        exact ⟨.raise hactive (by simp only [Region.hardFloor, hkind])
            (by simp only [Region.hardCeiling, hkind]),
          .raise hactive (by simp only [Region.softFloor, Region.hardFloor, hkind, Option.map_some])
            (by simp only [Region.softCeiling, hkind])⟩
    | other name =>
        rw [hkind] at h
        exact absurd h (by simp only [reduceCtorEq, not_false_eq_true])
  · rw [Region.passage_idle hactive] at h
    rw [← Except.ok.inj h]
    exact ⟨.idle_of_not hactive, .idle_of_not hactive⟩

/-- In the simple mode there are fixed margins and one interval. -/
theorem simpleCut_cutBy {p : PlanSettings R} {b b' : R × R} (h : simpleCut p t b r = .ok b') :
    CutBy t (Region.simpleCeiling p t) (Region.hardFloor t) [r] b b' := by
  unfold simpleCut at h
  by_cases hactive : r.ActiveAt t
  · rw [Region.passage_active hactive] at h
    cases hkind : r.manoeuvre with
    | stop | yield | follow =>
        rw [hkind] at h
        rw [← Except.ok.inj h]
        exact .cap hactive (by simp only [Region.simpleCeiling, hkind])
          (by simp only [Region.hardFloor, hkind])
    | overtake =>
        rw [hkind] at h
        rw [← Except.ok.inj h]
        exact .raise hactive (by simp only [Region.hardFloor, hkind])
          (by simp only [Region.simpleCeiling, hkind])
    | other name =>
        rw [hkind] at h
        exact absurd h (by simp only [reduceCtorEq, not_false_eq_true])
  · rw [Region.passage_idle hactive] at h
    rw [← Except.ok.inj h]
    exact .idle_of_not hactive

/-- In the simple mode a knot has what its regions leave of the whole path. -/
theorem simpleInterval_cutBy {length : R} {p : PlanSettings R} {knot : Nat} {b : R × R}
    (h : (simpleInterval regions length p knot t).result = .ok b) :
    CutBy t (Region.simpleCeiling p t) (Region.hardFloor t) regions (0, length) b := by
  rw [simpleInterval_result] at h
  rcases bind_eq_ok_iff.mp h with ⟨b', hcuts, h⟩
  rw [← Except.ok.inj (ite_error_ok h).2]
  exact CutBy.run (fun _ _ _ => simpleCut_cutBy) regions _ _ hcuts

end Ordered

/-- An interval that is opened again where it has closed. The ceiling is put
    ahead of the start, and then the floor below the ceiling. -/
def reopen {R : Type} [Scalar R] (margin : R) (b : R × R) : R × R :=
  let ceiling := if 0 < b.2 then b.2 else margin
  (if b.1 < ceiling then b.1 else ceiling - margin, ceiling)

section Rounded

variable {R : Type} [RoundedScalar R] {regions : List (Region R)} {length : R}
  {rough : SpeedSeries R} {brake : Option (SpeedSeries R)} {c : Comfort R} {p : PlanSettings R}

/-- Opening an interval again over the start. -/
theorem clampPair_eq_reopen (b : R × R) (margin : R) :
    clampPair b.1 b.2 0 margin = reopen margin b := by
  simp only [clampPair, reopen, RoundedScalar.zero_add, ← not_lt, ite_not]

/-- An interval that is open ahead of the start is not opened again. -/
theorem reopen_of_open {b : R × R} (hopen : b.1 < b.2) (hahead : 0 < b.2) (margin : R) :
    reopen margin b = b := by
  simp only [reopen, if_pos hahead, if_pos hopen]

/-- What regions leave of the whole path at a time. The hard interval `b` lies
    between the greatest floor and the least ceiling of the regions that are
    active then, and the soft one `b'` likewise, with the distances one would like
    to keep at the speed of the rough plan. -/
def CutAt (regions : List (Region R)) (length : R) (rough : SpeedSeries R) (c : Comfort R)
    (p : PlanSettings R) (t : R) (b b' : R × R) : Prop :=
  ∃ speed, (regions ≠ [] → ∃ here, rough.byTime t = some here ∧ here.v = speed) ∧
    CutBy t (Region.hardCeiling t) (Region.hardFloor t) regions (0, length) b ∧
    CutBy t (Region.softCeiling c speed t) (Region.softFloor p t) regions (0, length) b'

/-- The floors of what regions leave are not behind the start. -/
theorem CutAt.nonneg {t : R} {b b' : R × R} (h : CutAt regions length rough c p t b b') :
    0 ≤ b.1 ∧ 0 ≤ b'.1 := by
  rcases h with ⟨_, _, hcuts, hcuts'⟩
  exact ⟨hcuts.lower_le, hcuts'.lower_le⟩

/-- The two intervals of a knot, as they are composed of what its regions leave.
    What has closed is opened again. Where there are regions and an emergency
    stop is known, the hard ceiling is at least there. -/
def Composed (regions : List (Region R)) (length : R) (rough : SpeedSeries R)
    (brake : Option (SpeedSeries R)) (c : Comfort R) (p : PlanSettings R) (t : R)
    (hard soft : R × R) : Prop :=
  ∃ b b', CutAt regions length rough c p t b b' ∧
    hard = ((reopen p.boundMargin b).1, (stopPlace regions brake p t).elim
      (reopen p.boundMargin b).2 (max (reopen p.boundMargin b).2)) ∧
    soft = reopen p.boundMargin b'

/-- In the soft mode the opening of a knot is composed of what its regions leave. -/
theorem softOpening_composed {knot : Nat} {t : R} {o : Opening R}
    (h : (softOpening regions length rough brake c p knot t).result = .ok o) :
    Composed regions length rough brake c p t o.hard o.soft := by
  rw [softOpening_result] at h
  rcases bind_eq_ok_iff.mp h with ⟨speed, hspeed, h⟩
  rcases bind_eq_ok_iff.mp h with ⟨o', hcuts, h⟩
  refine ⟨o'.hard, o'.soft, ⟨speed, expectedSpeed_ok hspeed,
    CutBy.run (fun _ _ _ hcut => (cut_cutBy hcut).1) regions _ _ hcuts,
    CutBy.run (fun _ _ _ hcut => (cut_cutBy hcut).2) regions _ _ hcuts⟩, ?_⟩
  rw [← Except.ok.inj (ite_error_ok h).2, ← clampPair_eq_reopen, ← clampPair_eq_reopen]
  refine ⟨?_, rfl⟩
  rcases stopPlace regions brake p t with _ | place
  · rfl
  · simp only [Opening.hard, Opening.relax, Option.elim_some, greater_eq_max]
    rfl

/-- A corridor with soft intervals is composed of what its regions leave at each
    knot, whatever their number and their order. -/
theorem withSoft_composed {knots : Int} {step : R} {corridor : Corridor R}
    (h : (withSoft regions knots step length rough brake c p).result = .ok corridor) :
    corridor.hard.length = knots.toNat ∧ corridor.soft.length = knots.toNat ∧
      ∀ i : Nat, i < knots.toNat → ∃ hard soft, corridor.hard[i]? = some hard ∧
        corridor.soft[i]? = some soft ∧
        Composed regions length rough brake c p ((i : R) * step) hard soft := by
  rcases length_withSoft h with ⟨hlength, hlength'⟩
  refine ⟨hlength, hlength', fun i hi => ?_⟩
  rcases withSoft_entry h hi with ⟨o, ho, hhard, hsoft⟩
  exact ⟨o.hard, o.soft, hhard, hsoft, softOpening_composed ho⟩

end Rounded

/-! A convoy again -/

/-- A steady plan through the convoy. -/
def convoyPlan : SpeedSeries Rat := ⟨[⟨0, 0, 3, 0, 0⟩, ⟨27, 9, 3, 0, 0⟩]⟩

/-- An emergency stop that leads far into it. -/
def convoyStop : SpeedSeries Rat := ⟨[⟨16, 0, 2, 0, 0⟩, ⟨34, 9, 2, 0, 0⟩]⟩

/-- At the third knot one has to stay below 18, eight behind the one that one
    yields to, while the one to overtake is at 24. The floor gives way, and the
    emergency stop lifts the ceiling. -/
theorem withSoft_composed_convoy :
    ∃ corridor, (withSoft convoy 3 1 50 convoyPlan (some convoyStop) .usual .usual).result =
        .ok corridor ∧
      corridor.hard = [(6, 19), (15, 20), (179 / 10, 101 / 5)] ∧
      corridor.soft = [(139 / 10, 14), (149 / 10, 15), (159 / 10, 16)] ∧
      Composed convoy 50 convoyPlan (some convoyStop) .usual .usual (((2 : Nat) : Rat) * 1)
        (179 / 10, 101 / 5) (159 / 10, 16) := by
  have h : (withSoft convoy 3 1 50 convoyPlan (some convoyStop) .usual .usual).result =
      .ok ⟨[(6, 19), (15, 20), (179 / 10, 101 / 5)],
        [(139 / 10, 14), (149 / 10, 15), (159 / 10, 16)]⟩ :=
    result_of_intervals (by decide +kernel)
  rcases (withSoft_composed h).2.2 2 (by decide) with ⟨hard, soft, hhard, hsoft, hcomposed⟩
  rw [← Option.some.inj hhard, ← Option.some.inj hsoft] at hcomposed
  exact ⟨_, h, rfl, rfl, hcomposed⟩

/-- Where the floor of an interval is that has been opened again. It is at the
    start or ahead of it, unless a ceiling ahead of the start, but nearer than
    the margin, has come down upon it. Then it is the margin below that ceiling. -/
structure Grounded {R : Type} [Scalar R] (margin : R) (b : R × R) (floor : R) : Prop where
  behind_iff : floor < 0 ↔ 0 < b.2 ∧ b.2 < margin ∧ b.2 ≤ b.1
  place : floor < 0 → floor = b.2 - margin

section Gradual

variable {R : Type} [GradualScalar R] {regions : List (Region R)} {length : R}
  {rough : SpeedSeries R} {brake : Option (SpeedSeries R)} {c : Comfort R} {p : PlanSettings R}

theorem Grounded.of_nonneg {margin floor : R} {b : R × R} (h : 0 ≤ floor)
    (hfar : ¬ (0 < b.2 ∧ b.2 < margin ∧ b.2 ≤ b.1)) : Grounded margin b floor :=
  ⟨⟨fun hbehind => absurd h (not_le.mpr hbehind), fun hnear => absurd hnear hfar⟩,
    fun hbehind => absurd h (not_le.mpr hbehind)⟩

/-- Opening an interval again whose floor is not behind the start. -/
theorem reopen_grounded {b : R × R} (h : 0 ≤ b.1) (margin : R) :
    Grounded margin b (reopen margin b).1 := by
  by_cases hahead : 0 < b.2
  · by_cases hopen : b.1 < b.2
    · have hfloor : (reopen margin b).1 = b.1 := by
        simp only [reopen, if_pos hahead, if_pos hopen]
      rw [hfloor]
      exact .of_nonneg h fun hnear => absurd hopen (not_lt.mpr hnear.2.2)
    · -- The floor has given way to a ceiling ahead of the start.
      have hfloor : (reopen margin b).1 = b.2 - margin := by
        simp only [reopen, if_pos hahead, if_neg hopen]
      rw [hfloor]
      refine ⟨?_, fun _ => rfl⟩
      rw [← not_le, GradualScalar.sub_nonneg_iff, not_le]
      exact ⟨fun hnear => ⟨hahead, hnear, not_lt.mp hopen⟩, fun hnear => hnear.2.1⟩
  · -- The ceiling is put to the margin, and the floor is as before or at the start.
    refine .of_nonneg ?_ fun hnear => hahead hnear.1
    simp only [reopen, if_neg hahead]
    by_cases hopen : b.1 < margin
    · rw [if_pos hopen]
      exact h
    · rw [if_neg hopen, GradualScalar.sub_nonneg_iff]

/-- Where the floors of a corridor are. In the simple mode none is behind the
    start. In the soft mode a floor is behind the start exactly where a ceiling
    that is ahead of it by less than the margin has come down upon a floor, and
    then it is the margin below that ceiling. -/
theorem compile_floors {knots : Int} {step : R} {corridor : Corridor R}
    (h : (compile regions knots step length rough brake c p).result = .ok corridor) :
    (c.softBounds = false → ∀ b ∈ corridor.hard ++ corridor.soft, 0 ≤ b.1) ∧
    (c.softBounds = true → ∀ i : Nat, i < knots.toNat → ∃ b b' hard soft,
      CutAt regions length rough c p ((i : R) * step) b b' ∧
      corridor.hard[i]? = some hard ∧ Grounded p.boundMargin b hard.1 ∧
      corridor.soft[i]? = some soft ∧ Grounded p.boundMargin b' soft.1) := by
  constructor
  · intro hmode
    rw [compile, hmode, if_neg Bool.false_ne_true] at h
    rcases Outcome.bind_ok_iff.mp h with ⟨bs, hbs, h⟩
    rw [← Except.ok.inj h, List.append_nil]
    exact of_openings hbs fun i _ b hb => (simpleInterval_cutBy hb).lower_le
  · intro hmode i hi
    rw [compile, hmode, if_pos rfl] at h
    rcases withSoft_entry h hi with ⟨o, ho, hhard, hsoft⟩
    rcases softOpening_composed ho with ⟨b, b', hcuts, hends, hends'⟩
    refine ⟨b, b', o.hard, o.soft, hcuts, hhard, ?_, hsoft, ?_⟩
    · rw [hends]
      exact reopen_grounded hcuts.nonneg.1 p.boundMargin
    · rw [hends']
      exact reopen_grounded hcuts.nonneg.2 p.boundMargin

end Gradual

/-! A stop right ahead -/

/-- Standing still at a place for seven seconds. -/
def still (manoeuvre : Manoeuvre) (tail head : Rat) : Region Rat :=
  ⟨manoeuvre, [(0, tail), (7, tail)], [(0, head), (7, head)], 0, none⟩

/-- A plan that expects to go on at ten. -/
def straightOn : SpeedSeries Rat := ⟨[⟨0, 0, 10, 0, 0⟩, ⟨70, 7, 10, 0, 0⟩]⟩

/-- A stop right ahead, with somebody to overtake beyond it, and the corridor of
    the first knot. -/
def rightAhead : Outcome Rat (Corridor Rat) :=
  compile [still .stop (1 / 16) 9, still .overtake 3 5] 1 (1 / 2) 100 straightOn none .usual .usual

theorem rightAhead_result :
    rightAhead.result = .ok ⟨[(-(3 / 80), 1 / 16)], [(-(3 / 80), 1 / 16)]⟩ :=
  result_of_intervals (by decide +kernel)

/-- Both floors are the margin below the stop, which is nearer than the margin. -/
theorem compile_floors_rightAhead :
    rightAhead.result = .ok ⟨[(-(3 / 80), 1 / 16)], [(-(3 / 80), 1 / 16)]⟩ ∧
      ∃ b b', CutAt [still .stop (1 / 16) 9, still .overtake 3 5] 100 straightOn .usual .usual
          (((0 : Nat) : Rat) * (1 / 2)) b b' ∧
        Grounded (PlanSettings.usual : PlanSettings Rat).boundMargin b (-(3 / 80)) ∧
        0 < b.2 ∧ b.2 < (PlanSettings.usual : PlanSettings Rat).boundMargin ∧ b.2 ≤ b.1 := by
  refine ⟨rightAhead_result, ?_⟩
  rcases (compile_floors rightAhead_result).2 rfl 0 (by decide) with
    ⟨b, b', hard, soft, hcuts, hhard, hgrounded, _, _⟩
  rw [← Option.some.inj hhard] at hgrounded
  exact ⟨b, b', hcuts, hgrounded, hgrounded.behind_iff.mp (by norm_num)⟩

/-- So a floor can be behind the start, though every setting has been checked. -/
theorem compile_floor_behind :
    PlanSettings.usual.checked = .ok (PlanSettings.usual : PlanSettings Rat) ∧
      Comfort.usual.checked = .ok (Comfort.usual : Comfort Rat) ∧
      ∃ corridor, rightAhead.result = .ok corridor ∧
        ¬ ∀ b ∈ corridor.hard ++ corridor.soft, 0 ≤ b.1 := by
  refine ⟨PlanSettings.usual_checked, Comfort.usual_checked, _, rightAhead_result, fun hall => ?_⟩
  have hfirst := hall (-(3 / 80), 1 / 16) List.mem_cons_self
  exact absurd hfirst (by norm_num)

end Corridor

end JerkPlan
