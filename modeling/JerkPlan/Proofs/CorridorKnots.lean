import Mathlib.Data.List.Forall2
import JerkPlan.Proofs.Exact
import JerkPlan.Proofs.Results
import JerkPlan.Corridor

/-!
# Corridors knot by knot

A corridor is as good as its knots.

Both modes walk through the times of the knots and stop at the first one
without an opening. What a corridor holds is therefore said knot by knot, and
so is the failure of one that does not come about: `openings_ok_iff`,
`openings_error` and `openings_first_error` are the inductions over the walk.

An opening of the soft mode is made in three moves. The regions cut off what
they need, what has closed is opened again, and an emergency stop lifts the
hard ceiling. `softOpening_result` takes the three apart, so that each can be
spoken about alone. Nothing here depends on exact arithmetic.

## Main definitions

* `Corridor.expectedSpeed`: The speed that following distances depend on.
* `Corridor.stopPlace`: Where an emergency stop would have led by a time.
* `Opening.settle`: Opening both intervals again.
* `Opening.relax`: Lifting the hard ceiling.

## Theorems

* `mem_knotTimes`: The knots and their times.
* `openings_ok_iff`, `openings_error`, `openings_first_error`: Openings, time by
  time.
* `openings_related`, `openings_ext`: Openings of two kinds, time by time.
* `openings_entry`, `openings_eq_ok`, `openings_eq_error`, `openings_total`,
  `of_openings`: Openings, knot by knot.
* `openings_follow`, `openings_map_eq`, `openings_congr`: Openings of two kinds,
  knot by knot.
* `Opening.upper_le_relax`, `Opening.relax_of_le`: What lifting does to a ceiling.
* `expectedSpeed_ok`, `expectedSpeed_error`, `expectedSpeed_total`: Whether there is
  a speed to expect.
* `stopPlace_none`, `stopPlace_read`: Whether there is a stop to look at.
* `softOpening_result`: The three moves of an opening.
* `simpleInterval_result`: An interval of the simple mode is cut and checked.
* `withSoft_entry`: The intervals of a knot in a corridor that comes about.
* `length_withSoft`, `length_compile`: One interval for each knot.
-/

namespace JerkPlan

namespace Corridor

variable {R α : Type} {opening : Nat → R → Outcome R α}

/-- Openings come about when every single one does, and are these. -/
theorem openings_ok_iff (ts : List R) : ∀ i os, (openings opening i ts).result = .ok os ↔
    List.Forall₂ (fun x o => (opening x.2 x.1).result = .ok o) (ts.zipIdx i) os := by
  induction ts with
  | nil =>
      intro i os
      rw [openings, Outcome.result_pure, Except.ok.injEq, List.zipIdx_nil,
        List.forall₂_nil_left_iff, eq_comm]
  | cons t ts ih =>
      intro i os
      rw [openings, List.zipIdx_cons, List.forall₂_cons_left_iff, Outcome.bind_ok_iff]
      constructor
      · rintro ⟨o, ho, h⟩
        rcases Outcome.bind_ok_iff.mp h with ⟨os', hos, h⟩
        rw [Outcome.result_pure, Except.ok.injEq] at h
        exact ⟨o, os', ho, (ih (i + 1) os').mp hos, h.symm⟩
      · rintro ⟨o, os', ho, hos, rfl⟩
        refine ⟨o, ho, Outcome.bind_ok_iff.mpr ⟨os', (ih (i + 1) os').mpr hos, ?_⟩⟩
        rw [Outcome.result_pure]

/-- Openings that do not come about fail as one of them does. -/
theorem openings_error {e : Failure R} (ts : List R) :
    ∀ i, (openings opening i ts).result = .error e →
      ∃ x ∈ ts.zipIdx i, (opening x.2 x.1).result = .error e := by
  induction ts with
  | nil =>
      intro i h
      exact absurd h (by simp [openings])
  | cons t ts ih =>
      intro i h
      rw [openings] at h
      rw [List.zipIdx_cons]
      rcases Outcome.bind_error_iff.mp h with ht | ⟨o, _, h⟩
      · exact ⟨(t, i), List.mem_cons_self, ht⟩
      rcases Outcome.bind_error_iff.mp h with hts | ⟨os, _, h⟩
      · rcases ih (i + 1) hts with ⟨x, hx, he⟩
        exact ⟨x, List.mem_cons_of_mem _ hx, he⟩
      · exact absurd h (by simp only [Outcome.result_pure, reduceCtorEq, not_false_eq_true])

/-- Openings fail as the first of them that does not come about. -/
theorem openings_first_error {e : Failure R} (ts : List R) : ∀ (i k : Nat) (hk : k < ts.length),
    (∀ j (hj : j < k), ∃ o, (opening (i + j) ts[j]).result = .ok o) →
    (opening (i + k) ts[k]).result = .error e → (openings opening i ts).result = .error e := by
  induction ts with
  | nil => exact fun i k hk => absurd hk (Nat.not_lt_zero k)
  | cons t ts ih =>
      intro i k hk hbefore herror
      rw [openings]
      cases k with
      | zero => exact Outcome.bind_error_iff.mpr (Or.inl herror)
      | succ k =>
          rcases hbefore 0 (Nat.succ_pos k) with ⟨o, ho⟩
          refine Outcome.bind_error_iff.mpr (Or.inr ⟨o, ho, Outcome.bind_error_iff.mpr (Or.inl ?_)⟩)
          -- The rest is numbered from the next knot on.
          refine ih (i + 1) k (Nat.lt_of_succ_lt_succ hk) (fun j hj => ?_) ?_
          · rw [Nat.add_right_comm]
            exact hbefore (j + 1) (Nat.succ_lt_succ hj)
          · rw [Nat.add_right_comm]
            exact herror

theorem length_openings {i : Nat} {ts : List R} {os : List α}
    (h : (openings opening i ts).result = .ok os) : os.length = ts.length := by
  rw [← ((openings_ok_iff ts i os).mp h).length_eq, List.length_zipIdx]

/-- Openings of two kinds for the same times are related when they are at every
    single time. -/
theorem openings_related {β : Type} {opening' : Nat → R → Outcome R β} {related : α → β → Prop}
    (hknot : ∀ i t o o', (opening i t).result = .ok o → (opening' i t).result = .ok o' →
      related o o') (ts : List R) :
    ∀ i os os', (openings opening i ts).result = .ok os →
      (openings opening' i ts).result = .ok os' → List.Forall₂ related os os' := by
  intro i os os' h h'
  rw [openings_ok_iff] at h h'
  -- Both lists follow the numbered times.
  generalize ts.zipIdx i = xs at h h'
  induction h generalizing os' with
  | nil =>
      rw [List.forall₂_nil_left_iff.mp h']
      exact List.Forall₂.nil
  | cons ho _ ih =>
      rcases List.forall₂_cons_left_iff.mp h' with ⟨o', os', ho', hos', rfl⟩
      exact List.Forall₂.cons (hknot _ _ _ _ ho ho') (ih os' hos')

/-- Openings that are the same at every single time are the same together,
    notices included. -/
theorem openings_ext {opening' : Nat → R → Outcome R α} (ts : List R) :
    ∀ i, (∀ x ∈ ts.zipIdx i, opening x.2 x.1 = opening' x.2 x.1) →
      openings opening i ts = openings opening' i ts := by
  induction ts with
  | nil => exact fun i _ => rfl
  | cons t ts ih =>
      intro i h
      rw [List.zipIdx_cons, List.forall_mem_cons] at h
      rw [openings, openings, h.1, ih (i + 1) h.2]

end Corridor

variable {R : Type} [Scalar R]

theorem length_knotTimes (knots : Int) (step : R) : (knotTimes knots step).length = knots.toNat := by
  rw [knotTimes, List.length_map, List.length_range]

/-- The knots are numbered from zero, each at its multiple of the step. -/
theorem mem_knotTimes {knots : Int} {step : R} {x : R × Nat} :
    x ∈ (knotTimes knots step).zipIdx ↔ x.2 < knots.toNat ∧ x.1 = (x.2 : R) * step := by
  rcases x with ⟨t, i⟩
  rw [List.mem_zipIdx_iff_getElem?, knotTimes, List.getElem?_map, Option.map_eq_some_iff]
  constructor
  · rintro ⟨j, hj, rfl⟩
    have hi : i < knots.toNat := by
      have hlength := (List.getElem?_eq_some_iff.mp hj).1
      rw [List.length_range] at hlength
      exact hlength
    rw [List.getElem?_range hi, Option.some.injEq] at hj
    subst hj
    exact ⟨hi, rfl⟩
  · intro ⟨hi, ht⟩
    exact ⟨i, List.getElem?_range hi, ht.symm⟩

namespace Opening

/-- An opening whose closed intervals are opened again. -/
def settle (o : Opening R) (margin : R) : Opening R :=
  ⟨(clampPair o.lower o.upper 0 margin).1, (clampPair o.lower o.upper 0 margin).2,
    (clampPair o.softLower o.softUpper 0 margin).1, (clampPair o.softLower o.softUpper 0 margin).2⟩

/-- An opening whose hard ceiling is nowhere below a place, if there is one. -/
def relax (o : Opening R) (place : Option R) : Opening R :=
  { o with upper := place.elim o.upper (greater o.upper) }

section Ordered

variable {R : Type} [OrderedScalar R]

/-- A ceiling that has been lifted is not below where it was. -/
theorem upper_le_relax (o : Opening R) (place : Option R) : o.upper ≤ (o.relax place).upper := by
  rcases place with _ | s
  · exact le_rfl
  · simp only [relax, Option.elim_some, greater_eq_max]
    exact le_max_left _ _

/-- A ceiling is lifted only to a place that is above it. -/
theorem relax_of_le {o : Opening R} {place : Option R} (h : ∀ s, place = some s → s ≤ o.upper) :
    o.relax place = o := by
  rcases place with _ | s
  · rfl
  · simp only [relax, Option.elim_some, greater_eq_max, max_eq_left (h s rfl)]

end Ordered

end Opening

namespace Corridor

/-- Openings that come about have one for each knot, in the order of the knots. -/
theorem openings_entry {α : Type} {opening : Nat → R → Outcome R α} {knots : Int} {step : R}
    {os : List α} (h : (openings opening 0 (knotTimes knots step)).result = .ok os) {i : Nat}
    (hi : i < knots.toNat) :
    ∃ o, os[i]? = some o ∧ (opening i ((i : R) * step)).result = .ok o := by
  have hall := (openings_ok_iff _ 0 os).mp h
  have hknot : i < ((knotTimes knots step).zipIdx).length := by
    rw [List.length_zipIdx, length_knotTimes]
    exact hi
  have hlength : i < os.length := hall.length_eq ▸ hknot
  have hopening := hall.get hknot hlength
  simp only [List.get_eq_getElem, List.getElem_zipIdx, knotTimes, List.getElem_map,
    List.getElem_range, Nat.zero_add] at hopening
  exact ⟨os[i], List.getElem?_eq_getElem hlength, hopening⟩

/-- Openings that come about at every knot are these. -/
theorem openings_eq_ok {α : Type} {opening : Nat → R → Outcome R α} {knots : Int} {step : R}
    {o : Nat → α} (h : ∀ i, i < knots.toNat → (opening i ((i : R) * step)).result = .ok (o i)) :
    (openings opening 0 (knotTimes knots step)).result = .ok ((List.range knots.toNat).map o) := by
  rw [openings_ok_iff, List.forall₂_iff_get]
  refine ⟨?_, fun i hi _ => ?_⟩
  · rw [List.length_zipIdx, length_knotTimes, List.length_map, List.length_range]
  · rw [List.length_zipIdx, length_knotTimes] at hi
    simp only [List.get_eq_getElem, List.getElem_zipIdx, knotTimes, List.getElem_map,
      List.getElem_range, Nat.zero_add]
    exact h i hi

/-- Openings that fail at a knot, and at no knot before it, fail as this one. -/
theorem openings_eq_error {α : Type} {opening : Nat → R → Outcome R α} {knots : Int} {step : R}
    {k : Nat} {e : Failure R} (hk : k < knots.toNat)
    (hbefore : ∀ i, i < k → ∃ o, (opening i ((i : R) * step)).result = .ok o)
    (herror : (opening k ((k : R) * step)).result = .error e) :
    (openings opening 0 (knotTimes knots step)).result = .error e := by
  refine openings_first_error _ 0 k (by rw [length_knotTimes]; exact hk) (fun i hi => ?_) ?_
  · simp only [knotTimes, List.getElem_map, List.getElem_range, Nat.zero_add]
    exact hbefore i hi
  · simp only [knotTimes, List.getElem_map, List.getElem_range, Nat.zero_add]
    exact herror

/-- Openings come about when there is one for every knot. -/
theorem openings_total {α : Type} {opening : Nat → R → Outcome R α} {knots : Int} {step : R}
    (h : ∀ i, i < knots.toNat → ∃ o, (opening i ((i : R) * step)).result = .ok o) :
    ∃ os, (openings opening 0 (knotTimes knots step)).result = .ok os := by
  rcases hresult : (openings opening 0 (knotTimes knots step)).result with e | os
  · rcases openings_error _ 0 hresult with ⟨x, hx, he⟩
    rcases mem_knotTimes.mp hx with ⟨hi, ht⟩
    rcases h x.2 hi with ⟨o, ho⟩
    rw [ht, ho] at he
    exact absurd he (by simp only [reduceCtorEq, not_false_eq_true])
  · exact ⟨os, rfl⟩

/-- Openings of another kind come about as well when they do at every knot, and
    are related to the first ones as they are there. -/
theorem openings_follow {α β : Type} {opening : Nat → R → Outcome R α}
    {opening' : Nat → R → Outcome R β} {knots : Int} {step : R} (related : Nat → α → β → Prop)
    {os : List α} (h : (openings opening 0 (knotTimes knots step)).result = .ok os)
    (hknot : ∀ i, i < knots.toNat → ∀ o, (opening i ((i : R) * step)).result = .ok o →
      ∃ o', (opening' i ((i : R) * step)).result = .ok o' ∧ related i o o') :
    ∃ os', (openings opening' 0 (knotTimes knots step)).result = .ok os' ∧
      ∀ i, i < knots.toNat → ∃ o o', os[i]? = some o ∧ os'[i]? = some o' ∧ related i o o' := by
  have htotal : ∃ os', (openings opening' 0 (knotTimes knots step)).result = .ok os' := by
    refine openings_total fun i hi => ?_
    rcases openings_entry h hi with ⟨o, _, ho⟩
    rcases hknot i hi o ho with ⟨o', ho', _⟩
    exact ⟨o', ho'⟩
  rcases htotal with ⟨os', hos'⟩
  refine ⟨os', hos', fun i hi => ?_⟩
  rcases openings_entry h hi with ⟨o, hentry, ho⟩
  rcases openings_entry hos' hi with ⟨o', hentry', ho'⟩
  rcases hknot i hi o ho with ⟨o'', ho'', hrelated⟩
  -- A knot has one opening of the second kind.
  rw [Except.ok.inj (ho''.symm.trans ho')] at hrelated
  exact ⟨o, o', hentry, hentry', hrelated⟩

/-- Two lists of openings of which the same is read at every knot. -/
theorem openings_map_eq {α β γ : Type} {opening : Nat → R → Outcome R α}
    {opening' : Nat → R → Outcome R β} {knots : Int} {step : R} {os : List α} {os' : List β}
    {f : α → γ} {g : β → γ} (h : (openings opening 0 (knotTimes knots step)).result = .ok os)
    (h' : (openings opening' 0 (knotTimes knots step)).result = .ok os')
    (hknot : ∀ i, i < knots.toNat → ∃ o o', os[i]? = some o ∧ os'[i]? = some o' ∧ g o' = f o) :
    os'.map g = os.map f := by
  refine List.ext_getElem?' fun i hi => ?_
  -- There is an opening of either kind at each of the knots and at no other place.
  rw [List.length_map, List.length_map, length_openings h, length_openings h', Nat.max_self,
    length_knotTimes] at hi
  rcases hknot i hi with ⟨o, o', hentry, hentry', hsame⟩
  rw [List.getElem?_map, List.getElem?_map, hentry, hentry', Option.map_some, Option.map_some, hsame]

/-- Openings that are the same at every knot are the same together. -/
theorem openings_congr {α : Type} {opening opening' : Nat → R → Outcome R α} {knots : Int}
    {step : R} (h : ∀ i, i < knots.toNat → opening i ((i : R) * step) = opening' i ((i : R) * step)) :
    openings opening 0 (knotTimes knots step) = openings opening' 0 (knotTimes knots step) := by
  refine openings_ext _ 0 fun x hx => ?_
  rcases mem_knotTimes.mp hx with ⟨hi, ht⟩
  rw [ht]
  exact h x.2 hi

/-- What holds of every opening of a knot holds of all openings. -/
theorem of_openings {α : Type} {opening : Nat → R → Outcome R α} {knots : Int} {step : R}
    {os : List α} {holds : α → Prop}
    (h : (openings opening 0 (knotTimes knots step)).result = .ok os)
    (heach : ∀ i, i < knots.toNat → ∀ o, (opening i ((i : R) * step)).result = .ok o → holds o) :
    ∀ o ∈ os, holds o := by
  intro o ho
  rcases List.mem_iff_getElem?.mp ho with ⟨i, hentry⟩
  have hi : i < knots.toNat := by
    rw [← length_knotTimes knots step, ← length_openings h]
    exact (List.getElem?_eq_some_iff.mp hentry).1
  -- The opening belongs to the knot at its place in the list.
  rcases openings_entry h hi with ⟨o', ho', hopening⟩
  rw [hentry, Option.some.injEq] at ho'
  rw [ho']
  exact heach i hi o' hopening

/-- The speed that one expects to have at a time. Without regions nobody asks
    for it. -/
def expectedSpeed (regions : List (Region R)) (rough : SpeedSeries R) (t : R) :
    Except (Failure R) R :=
  if regions.isEmpty then .ok 0
  else (rough.byTime t).elim (.error (.stage (.input noSpeed))) fun here => .ok here.v

/-- There is no speed to expect where regions ask for one and the rough plan
    says nothing. -/
theorem expectedSpeed_error {regions : List (Region R)} {rough : SpeedSeries R} {t : R}
    {e : Failure R} (h : expectedSpeed regions rough t = .error e) :
    e = .stage (.input noSpeed) ∧ regions ≠ [] ∧ rough.byTime t = none := by
  unfold expectedSpeed at h
  by_cases hempty : regions.isEmpty = true
  · rw [if_pos hempty] at h
    exact absurd h (by simp only [reduceCtorEq, not_false_eq_true])
  · rw [if_neg hempty] at h
    rw [List.isEmpty_iff] at hempty
    rcases hrough : rough.byTime t with _ | here
    · rw [hrough] at h
      exact ⟨(Except.error.inj h).symm, hempty, rfl⟩
    · rw [hrough] at h
      exact absurd h (by simp only [Option.elim_some, reduceCtorEq, not_false_eq_true])

/-- Where there are regions, the speed to expect is that of the rough plan. -/
theorem expectedSpeed_ok {regions : List (Region R)} {rough : SpeedSeries R} {t speed : R}
    (h : expectedSpeed regions rough t = .ok speed) (hregions : regions ≠ []) :
    ∃ here, rough.byTime t = some here ∧ here.v = speed := by
  rw [expectedSpeed, if_neg fun hnone => hregions (List.isEmpty_iff.mp hnone)] at h
  rcases hrough : rough.byTime t with _ | here
  · rw [hrough] at h
    exact absurd h (by simp only [Option.elim_none, reduceCtorEq, not_false_eq_true])
  · rw [hrough] at h
    exact ⟨here, rfl, Except.ok.inj h⟩

/-- A rough plan that can be read is enough. -/
theorem expectedSpeed_total {rough : SpeedSeries R} {t : R} (h : (rough.byTime t).isSome)
    (regions : List (Region R)) : ∃ speed, expectedSpeed regions rough t = .ok speed := by
  rcases hresult : expectedSpeed regions rough t with e | speed
  · rw [(expectedSpeed_error hresult).2.2] at h
    exact absurd h (by simp only [Option.isSome_none, Bool.false_eq_true, not_false_eq_true])
  · exact ⟨speed, rfl⟩

/-- Where an emergency stop would have led by a time, with the margin to keep
    from there. -/
def stopPlace (regions : List (Region R)) (brake : Option (SpeedSeries R)) (p : PlanSettings R)
    (t : R) : Option R :=
  (if regions.isEmpty then none else brake.bind (·.byTime t)).map fun here => here.s + p.brakeMargin

theorem stopPlace_none (regions : List (Region R)) (p : PlanSettings R) (t : R) :
    stopPlace regions none p t = none := by
  simp only [stopPlace, Option.bind_none, ite_self, Option.map_none]

/-- Where there are regions, an emergency stop is read wherever it can be. -/
theorem stopPlace_read {regions : List (Region R)} (h : regions ≠ [])
    (brake : Option (SpeedSeries R)) (p : PlanSettings R) (t : R) :
    stopPlace regions brake p t =
      (brake.bind (·.byTime t)).map fun here => here.s + p.brakeMargin := by
  rw [stopPlace, if_neg fun hnone => h (List.isEmpty_iff.mp hnone)]

/-- The three moves of an opening in the soft mode: the regions cut, what has
    closed is opened again, and the emergency stop lifts the hard ceiling. -/
theorem softOpening_result (regions : List (Region R)) (length : R) (rough : SpeedSeries R)
    (brake : Option (SpeedSeries R)) (c : Comfort R) (p : PlanSettings R) (knot : Nat) (t : R) :
    (softOpening regions length rough brake c p knot t).result =
      expectedSpeed regions rough t >>= fun speed =>
        regions.foldlM (cut c p t speed) (Opening.whole length) >>= fun o =>
          let o' := (o.settle p.boundMargin).relax (stopPlace regions brake p t)
          if o'.upper < o'.lower then .error (.stage (.corridor crossed (some knot)))
          else .ok o' := by
  unfold softOpening expectedSpeed stopPlace
  by_cases hempty : regions.isEmpty = true
  · simp only [hempty, if_true, Outcome.result_bind, Outcome.result_of, Outcome.result_pure,
      Outcome.result_closing]
    rfl
  · -- With regions the rough plan decides whether there is a speed to expect.
    rcases rough.byTime t with _ | here
    · simp only [hempty, Bool.false_eq_true, if_false]
      rfl
    · simp only [hempty, Bool.false_eq_true, if_false, Outcome.result_bind, Outcome.result_of,
        Outcome.result_pure, Outcome.result_closing, Option.elim_some, Opening.settle, Opening.relax,
        Option.elim_map]
      rfl

/-- In the simple mode the regions cut, and what has closed is a failure. -/
theorem simpleInterval_result (regions : List (Region R)) (length : R) (p : PlanSettings R)
    (knot : Nat) (t : R) :
    (simpleInterval regions length p knot t).result =
      regions.foldlM (simpleCut p t) (0, length) >>= fun b =>
        if b.2 < b.1 then .error (.stage (.corridor crossed (some knot))) else .ok b := by
  unfold simpleInterval
  simp only [Outcome.result_bind, Outcome.result_of, apply_ite Outcome.result]
  rfl

/-- Both intervals of a knot in a corridor that comes about. -/
theorem withSoft_entry {regions : List (Region R)} {knots : Int} {step length : R}
    {rough : SpeedSeries R} {brake : Option (SpeedSeries R)} {c : Comfort R} {p : PlanSettings R}
    {corridor : Corridor R}
    (h : (withSoft regions knots step length rough brake c p).result = .ok corridor) {i : Nat}
    (hi : i < knots.toNat) :
    ∃ o, (softOpening regions length rough brake c p i ((i : R) * step)).result = .ok o ∧
      corridor.hard[i]? = some (o.lower, o.upper) ∧
      corridor.soft[i]? = some (o.softLower, o.softUpper) := by
  rcases Outcome.bind_ok_iff.mp h with ⟨os, hos, h⟩
  rcases openings_entry hos hi with ⟨o, hentry, ho⟩
  refine ⟨o, ho, ?_⟩
  rw [← Except.ok.inj h, List.getElem?_map, List.getElem?_map, hentry]
  exact ⟨rfl, rfl⟩

/-- There is a hard and a soft interval for each knot. -/
theorem length_withSoft {regions : List (Region R)} {knots : Int} {step length : R}
    {rough : SpeedSeries R} {brake : Option (SpeedSeries R)} {c : Comfort R} {p : PlanSettings R}
    {corridor : Corridor R}
    (h : (withSoft regions knots step length rough brake c p).result = .ok corridor) :
    corridor.hard.length = knots.toNat ∧ corridor.soft.length = knots.toNat := by
  rcases Outcome.bind_ok_iff.mp h with ⟨os, hos, h⟩
  rw [Outcome.result_pure, Except.ok.injEq] at h
  -- Both lists are read off the same openings.
  rw [← h, List.length_map, List.length_map, length_openings hos, length_knotTimes]
  exact ⟨rfl, rfl⟩

/-- There is a hard interval for each knot in either mode, and a soft one for
    each knot or for none. -/
theorem length_compile {regions : List (Region R)} {knots : Int} {step length : R}
    {rough : SpeedSeries R} {brake : Option (SpeedSeries R)} {c : Comfort R} {p : PlanSettings R}
    {corridor : Corridor R}
    (h : (compile regions knots step length rough brake c p).result = .ok corridor) :
    corridor.hard.length = knots.toNat ∧
      (corridor.soft = [] ∨ corridor.soft.length = knots.toNat) := by
  unfold compile at h
  split at h
  · rcases length_withSoft h with ⟨hhard, hsoft⟩
    exact ⟨hhard, Or.inr hsoft⟩
  · rcases Outcome.bind_ok_iff.mp h with ⟨os, hos, h⟩
    rw [Outcome.result_pure, Except.ok.injEq] at h
    rw [← h, length_openings hos, length_knotTimes]
    exact ⟨rfl, Or.inl rfl⟩

end Corridor

end JerkPlan
