import JerkPlan.Proofs.CorridorOutcomes
import JerkPlan.Proofs.EmergencyStops

/-!
# Idle regions

Regions that are not active at the time of any knot.

Such a region cuts nothing off, so a run over the regions is the same with it
and without it, wherever it stands, and so is everything that is made of the
cuts. In the simple mode there is nothing else.

The soft mode asks a second question, once for the whole list: whether there are
regions at all. Only then it looks at the rough plan and at the emergency stop.
Another region beside others does not change the answer, idle or not. An idle
region that stands alone does. The plan has to be readable at every knot from
then on, and the stop may lift ceilings, though nobody is in the way.
`compile_idle` says when this makes no difference to the corridor and that it
makes one in all other cases.

## Main definitions

* `Corridor.freeEnd`: How far one may go where there are no regions.
* `Corridor.Indifferent`: A free path is the same for somebody who looks at the
  rough plan and at the emergency stop.

## Theorems

* `Corridor.cut_idle`, `Corridor.simpleCut_idle`: Cutting nothing off.
* `Corridor.softOpening_idle`, `Corridor.simpleInterval_idle`: A knot with an
  idle region among others.
* `Corridor.withSoft_idle`, `Corridor.simple_idle`: A corridor with one.
* `Corridor.softOpening_free`: A knot at which no region is active.
* `Corridor.softOpening_alone_iff`, `Corridor.withSoft_alone_iff`: A knot and a
  corridor with an idle region alone.
* `Corridor.compile_idle`: When an idle region makes no difference.
* `Corridor.compile_idle_alone`: When it makes one.
-/

namespace JerkPlan

namespace Region

instance {R : Type} [OrderedScalar R] (r : Region R) (t : R) : Decidable (r.ActiveAt t) :=
  inferInstanceAs (Decidable (_ ∧ _))

end Region

namespace Corridor

section Ordered

variable {R : Type} [OrderedScalar R] {r : Region R} {t : R} {c : Comfort R} {p : PlanSettings R}

/-- A region that is not active leaves an opening as it is. -/
theorem cut_idle (h : ¬ r.ActiveAt t) (speed : R) (o : Opening R) :
    cut c p t speed o r = .ok o := by
  unfold cut
  rw [Region.passage_idle h]

/-- In the simple mode it leaves the interval as it is. -/
theorem simpleCut_idle (h : ¬ r.ActiveAt t) (b : R × R) : simpleCut p t b r = .ok b := by
  unfold simpleCut
  rw [Region.passage_idle h]

variable {before after : List (Region R)} {length : R} {rough : SpeedSeries R}
  {brake : Option (SpeedSeries R)} {knot : Nat}

/-- Among other regions, one that is not active makes no difference to a knot. -/
theorem softOpening_idle (h : ¬ r.ActiveAt t) (hothers : before ++ after ≠ []) :
    softOpening (before ++ r :: after) length rough brake c p knot t =
      softOpening (before ++ after) length rough brake c p knot t := by
  have hsome : (before ++ after).isEmpty = false := List.isEmpty_eq_false_iff.mpr hothers
  have hsome' : (before ++ r :: after).isEmpty = false :=
    List.isEmpty_eq_false_iff.mpr (List.append_ne_nil_of_right_ne_nil _ (List.cons_ne_nil _ _))
  have hcuts (speed : R) := foldlM_idle (f := cut c p t speed) (cut_idle h speed) before after
    (Opening.whole length)
  simp only [softOpening, hsome, hsome', hcuts]

/-- In the simple mode it need not have any company for this. -/
theorem simpleInterval_idle (h : ¬ r.ActiveAt t) :
    simpleInterval (before ++ r :: after) length p knot t =
      simpleInterval (before ++ after) length p knot t := by
  have hcuts := foldlM_idle (f := simpleCut p t) (simpleCut_idle h) before after (0, length)
  simp only [simpleInterval, hcuts]

variable {knots : Int} {step : R}

theorem withSoft_idle (hidle : ∀ i : Nat, i < knots.toNat → ¬ r.ActiveAt ((i : R) * step))
    (hothers : before ++ after ≠ []) :
    withSoft (before ++ r :: after) knots step length rough brake c p =
      withSoft (before ++ after) knots step length rough brake c p := by
  unfold withSoft
  rw [openings_congr fun i hi => softOpening_idle (hidle i hi) hothers]

theorem simple_idle (hidle : ∀ i : Nat, i < knots.toNat → ¬ r.ActiveAt ((i : R) * step)) :
    simple (before ++ r :: after) knots step length p =
      simple (before ++ after) knots step length p := by
  unfold simple
  rw [openings_congr fun i hi => simpleInterval_idle (hidle i hi)]

end Ordered

section Rounded

variable {R : Type} [RoundedScalar R] {regions : List (Region R)} {r : Region R} {t : R}
  {knots : Int} {step length : R} {rough : SpeedSeries R} {brake : Option (SpeedSeries R)}
  {c : Comfort R} {p : PlanSettings R}

/-- How far one may go where there are no regions: to the end of the path, or up to
    the margin if the path has no length. -/
def freeEnd (length : R) (p : PlanSettings R) : R := if 0 < length then length else p.boundMargin

theorem freeEnd_pos (hmargin : 0 < p.boundMargin) (length : R) : 0 < freeEnd length p := by
  unfold freeEnd
  by_cases hlength : 0 < length
  · rw [if_pos hlength]
    exact hlength
  · rw [if_neg hlength]
    exact hmargin

/-- Opening a free path again. -/
theorem clampPair_free (hmargin : 0 < p.boundMargin) (length : R) :
    clampPair 0 length 0 p.boundMargin = (0, freeEnd length p) := by
  refine (clampPair_eq_reopen (0, length) _).trans ?_
  change (if 0 < freeEnd length p then 0 else freeEnd length p - p.boundMargin,
    freeEnd length p) = _
  rw [if_pos (freeEnd_pos hmargin length)]

/-- At a knot at which no region is active the whole path is free, if there is a
    speed to expect. An emergency stop lifts the ceiling all the same. -/
theorem softOpening_free (hmargin : 0 < p.boundMargin) (hidle : ∀ r ∈ regions, ¬ r.ActiveAt t)
    (length : R) (rough : SpeedSeries R) (brake : Option (SpeedSeries R)) (c : Comfort R)
    (knot : Nat) :
    (softOpening regions length rough brake c p knot t).result =
      expectedSpeed regions rough t >>= fun _ =>
        .ok ((Opening.whole (freeEnd length p)).relax (stopPlace regions brake p t)) := by
  have hcuts (speed : R) : regions.foldlM (cut c p t speed) (Opening.whole length) =
      .ok (Opening.whole length) := foldlM_stays regions fun r hr => cut_idle (hidle r hr) speed _
  have hsettled : (Opening.whole length).settle p.boundMargin =
      Opening.whole (freeEnd length p) := by
    simp only [Opening.settle, Opening.whole, clampPair_free hmargin]
  rw [softOpening_result]
  refine bind_congr fun speed => ?_
  rw [hcuts]
  change (if _ then _ else _) = _
  rw [hsettled]
  refine if_neg (not_lt.mpr ?_)
  -- The floor is at the start, and the ceiling is no lower than the end of the path.
  exact (freeEnd_pos hmargin length).le.trans
    ((Opening.whole (freeEnd length p)).upper_le_relax (stopPlace regions brake p t))

/-- A free path is the same for somebody who looks at the rough plan and at the
    emergency stop at every knot: the plan can be read there, and the stop, where
    it can be read, does not lead beyond the path. -/
def Indifferent (knots : Int) (step length : R) (rough : SpeedSeries R)
    (brake : Option (SpeedSeries R)) (p : PlanSettings R) : Prop :=
  ∀ i : Nat, i < knots.toNat → (rough.byTime ((i : R) * step)).isSome ∧
    ∀ place ∈ brake.bind (·.byTime ((i : R) * step)), place.s + p.brakeMargin ≤ freeEnd length p

instance (knots : Int) (step length : R) (rough : SpeedSeries R) (brake : Option (SpeedSeries R))
    (p : PlanSettings R) : Decidable (Indifferent knots step length rough brake p) :=
  inferInstanceAs (Decidable (∀ i : Nat, i < knots.toNat → _))

/-- The opening of a knot with an idle region alone. It is a free path when the rough
    plan can be read and the emergency stop does not lead beyond the path, and only
    then. -/
theorem softOpening_alone_iff (hmargin : 0 < p.boundMargin) (hidle : ¬ r.ActiveAt t) (knot : Nat) :
    (softOpening [r] length rough brake c p knot t).result =
        .ok (Opening.whole (freeEnd length p)) ↔
      (rough.byTime t).isSome ∧
        ∀ place ∈ brake.bind (·.byTime t), place.s + p.brakeMargin ≤ freeEnd length p := by
  have hsome : [r] ≠ [] := List.cons_ne_nil r []
  rw [softOpening_free hmargin (List.forall_mem_singleton.mpr hidle), stopPlace_read hsome]
  constructor
  · intro h
    rcases bind_eq_ok_iff.mp h with ⟨speed, hspeed, h⟩
    rcases expectedSpeed_ok hspeed hsome with ⟨here, hhere, _⟩
    refine ⟨by rw [hhere, Option.isSome_some], fun place hplace => ?_⟩
    -- The ceiling has been lifted to the stop, and is still where it is on a free path.
    have hupper := congrArg Opening.upper (Except.ok.inj h)
    rw [Option.mem_def.mp hplace] at hupper
    simp only [Opening.relax, Opening.whole, Option.map_some, Option.elim_some,
      greater_eq_max] at hupper
    exact max_eq_left_iff.mp hupper
  · rintro ⟨hrough, hstop⟩
    rcases expectedSpeed_total hrough [r] with ⟨speed, hspeed⟩
    rw [hspeed]
    refine congrArg Except.ok (Opening.relax_of_le fun s hs => ?_)
    -- The only place to lift the ceiling to is that of the stop.
    rcases Option.map_eq_some_iff.mp hs with ⟨place, hplace, rfl⟩
    exact hstop place hplace

/-- An idle region that stands alone makes no difference when a free path is the
    same for somebody who looks, and only then. -/
theorem withSoft_alone_iff (hidle : ∀ i : Nat, i < knots.toNat → ¬ r.ActiveAt ((i : R) * step))
    (hmargin : 0 < p.boundMargin) :
    (withSoft [r] knots step length rough brake c p).result =
        (withSoft [] knots step length rough brake c p).result ↔
      Indifferent knots step length rough brake p := by
  have hnone (i : Nat) (_ : i < knots.toNat) :
      (softOpening [] length rough brake c p i ((i : R) * step)).result =
        .ok (Opening.whole (freeEnd length p)) :=
    softOpening_free hmargin (fun r hr => absurd hr List.not_mem_nil) length rough brake c i
  have hopenings := openings_eq_ok hnone
  constructor
  · intro hsame i hi
    have hfree : ∃ corridor, (withSoft [] knots step length rough brake c p).result =
        .ok corridor := ⟨_, Outcome.bind_ok_iff.mpr ⟨_, hopenings, rfl⟩⟩
    rcases hfree with ⟨corridor, hfree⟩
    rw [hfree] at hsame
    -- Both corridors have the same intervals at the knot, so the openings are the same.
    rcases withSoft_entry hsame hi with ⟨o, ho, hhard, hsoft⟩
    rcases withSoft_entry hfree hi with ⟨o', ho', hhard', hsoft'⟩
    rw [hhard, Option.some.injEq, Prod.mk.injEq] at hhard'
    rw [hsoft, Option.some.injEq, Prod.mk.injEq] at hsoft'
    have hopening : o = o' := by
      rw [Opening.mk.injEq]
      exact ⟨hhard'.1, hhard'.2, hsoft'.1, hsoft'.2⟩
    rw [hopening, Except.ok.inj (ho'.symm.trans (hnone i hi))] at ho
    exact (softOpening_alone_iff hmargin (hidle i hi) i).mp ho
  · intro hindifferent
    have hopen (i : Nat) (hi : i < knots.toNat) :
        (softOpening [r] length rough brake c p i ((i : R) * step)).result =
          .ok (Opening.whole (freeEnd length p)) :=
      (softOpening_alone_iff hmargin (hidle i hi) i).mpr (hindifferent i hi)
    have hsame := (openings_eq_ok hopen).trans hopenings.symm
    unfold withSoft
    rw [Outcome.result_bind, Outcome.result_bind, hsame]

/-- When an idle region makes no difference to a corridor, wherever it stands. It
    makes none beside other regions and none in the simple mode. If it stands alone
    in the soft mode, it makes none exactly when a free path is the same for
    somebody who looks at the rough plan and at the emergency stop. -/
theorem compile_idle (hidle : ∀ i : Nat, i < knots.toNat → ¬ r.ActiveAt ((i : R) * step))
    (hmargin : 0 < p.boundMargin) (before after : List (Region R)) :
    (compile (before ++ r :: after) knots step length rough brake c p).result =
        (compile (before ++ after) knots step length rough brake c p).result ↔
      before ++ after ≠ [] ∨ c.softBounds = false ∨
        Indifferent knots step length rough brake p := by
  unfold compile
  by_cases hmode : c.softBounds = true
  · rw [if_pos hmode, if_pos hmode]
    by_cases hothers : before ++ after = []
    · rcases List.append_eq_nil_iff.mp hothers with ⟨rfl, rfl⟩
      rw [List.nil_append, List.nil_append, withSoft_alone_iff hidle hmargin]
      simp only [ne_eq, not_true_eq_false, hmode, Bool.true_eq_false, false_or]
    · rw [withSoft_idle hidle hothers]
      exact iff_of_true rfl (Or.inl hothers)
  · rw [if_neg hmode, if_neg hmode, simple_idle hidle]
    exact iff_of_true rfl (Or.inr (Or.inl (Bool.eq_false_iff.mpr hmode)))

end Rounded

/-! Somebody who is gone in time -/

/-- Somebody who crosses between the first two seconds. -/
def crossing : Region Rat :=
  ⟨.stop, [(1 / 4, 5), (3 / 4, 5)], [(1 / 4, 8), (3 / 4, 8)], 0, none⟩

theorem crossing_idle : ∀ i : Nat, i < (3 : Int).toNat → ¬ crossing.ActiveAt ((i : Rat) * 1) := by
  decide +kernel

/-- An emergency stop that leads beyond a path of fifty. -/
def farStop : SpeedSeries Rat := ⟨[⟨60, 0, 0, 0, 0⟩, ⟨60, 9, 0, 0, 0⟩]⟩

/-- In the middle of the convoy the crossing makes no difference in either mode. If
    it stands alone, it makes none with an emergency stop that ends on the path, and
    makes one with a stop that leads beyond it. -/
theorem compile_idle_crossing :
    (∀ i : Nat, i < (3 : Int).toNat → ¬ crossing.ActiveAt ((i : Rat) * 1)) ∧
      0 < (PlanSettings.usual : PlanSettings Rat).boundMargin ∧
      (compile (convoy.take 2 ++ crossing :: convoy.drop 2) 3 1 50 convoyPlan (some convoyStop)
        .usual .usual).result = .ok ⟨[(6, 19), (15, 20), (179 / 10, 101 / 5)],
          [(139 / 10, 14), (149 / 10, 15), (159 / 10, 16)]⟩ ∧
      failedAt (compile (convoy.take 2 ++ crossing :: convoy.drop 2) 3 1 50 convoyPlan
        (some convoyStop) { Comfort.usual with softBounds := false } .usual).result = some 2 ∧
      (compile [crossing] 3 1 50 convoyPlan (some convoyStop) .usual .usual).result =
        (compile [] 3 1 50 convoyPlan (some convoyStop) .usual .usual).result ∧
      (compile [crossing] 3 1 50 convoyPlan (some farStop) .usual .usual).result ≠
        (compile [] 3 1 50 convoyPlan (some farStop) .usual .usual).result := by
  have hmargin : 0 < (PlanSettings.usual : PlanSettings Rat).boundMargin := by decide +kernel
  have hconvoy : convoy.take 2 ++ convoy.drop 2 = convoy := List.take_append_drop 2 convoy
  have hsome : convoy.take 2 ++ convoy.drop 2 ≠ [] := by
    rw [hconvoy]
    exact List.cons_ne_nil _ _
  refine ⟨crossing_idle, hmargin, ?_, ?_, ?_, ?_⟩
  · rw [(compile_idle crossing_idle hmargin _ _).mpr (Or.inl hsome), hconvoy]
    exact result_of_intervals (by decide +kernel)
  · rw [(compile_idle crossing_idle hmargin _ _).mpr (Or.inl hsome), hconvoy]
    decide +kernel
  · exact (compile_idle crossing_idle hmargin [] []).mpr (Or.inr (Or.inr (by decide +kernel)))
  · intro hsame
    rcases (compile_idle crossing_idle hmargin [] []).mp hsame with hothers | hmode | h
    · exact hothers rfl
    · exact absurd hmode (by decide)
    · exact absurd h (by decide +kernel)

/-- So an idle region can make a difference. Without regions one may go to the end
    of the path. With the crossing, though there is nobody at the time of either
    knot, a rough plan is missing, and with a rough plan the ceiling is where an
    emergency stop leads to. -/
theorem compile_idle_alone :
    (∀ i : Nat, i < (2 : Int).toNat → ¬ crossing.ActiveAt ((i : Rat) * 1)) ∧
      (compile [] 2 1 50 ⟨[]⟩ none .usual .usual).result =
        .ok ⟨[((0 : Rat), 50), (0, 50)], [(0, 50), (0, 50)]⟩ ∧
      (compile [crossing] 2 1 50 ⟨[]⟩ none .usual .usual).result =
        .error (.stage (.input noSpeed)) ∧
      (compile [] 2 1 50 convoyPlan (some farStop) .usual .usual).result =
        .ok ⟨[(0, 50), (0, 50)], [(0, 50), (0, 50)]⟩ ∧
      (compile [crossing] 2 1 50 convoyPlan (some farStop) .usual .usual).result =
        .ok ⟨[(0, 301 / 5), (0, 301 / 5)], [(0, 50), (0, 50)]⟩ :=
  ⟨by decide +kernel, result_of_intervals (by decide +kernel), rfl,
    result_of_intervals (by decide +kernel), result_of_intervals (by decide +kernel)⟩

end Corridor

end JerkPlan
