import JerkPlan.Proofs.CorridorOutcomes

/-!
# Longer horizons

What more knots do to a corridor.

A corridor is made in one walk through the times of its knots. A horizon with
more knots has the times of the shorter one and then some others, so the walk
begins in the same way, and nothing that was found at a knot is ever looked at
again. `openings_append` splits a walk in two, by induction on the times that
come first. All else follows from it: a walk that comes to its end has passed the
earlier knots with the same openings, and one that stops early never gets to the
later ones.

This is about the order of the walk alone. It holds of any scalars, machine
numbers among them.

## Main definitions

* `Corridor.first`: The first knots of a corridor.
* `Corridor.readOff`: A corridor as it is read off the openings of its knots.

## Theorems

* `knotTimes_prefix`: The times of fewer knots come first.
* `Corridor.openings_append`: A walk in two parts.
* `Corridor.openings_longer`, `Corridor.readOff_longer`: A longer walk, and what is
  read off it.
* `Corridor.compile_longer`: The corridor of a longer horizon.
-/

namespace JerkPlan

namespace Corridor

/-- Openings for two lists of times are those for the first one and then those for
    the second. -/
theorem openings_append {R α : Type} {opening : Nat → R → Outcome R α} (ts us : List R) :
    ∀ i, openings opening i (ts ++ us) = openings opening i ts >>= fun os =>
      openings opening (i + ts.length) us >>= fun os' => pure (os ++ os') := by
  induction ts with
  | nil =>
      intro i
      simp only [List.nil_append, openings, pure_bind, List.length_nil, Nat.add_zero, bind_pure]
  | cons t ts ih =>
      -- The second part is numbered on from the first one.
      intro i
      simp only [List.cons_append, openings, ih, bind_assoc, pure_bind, List.length_cons,
        Nat.add_right_comm i 1, ← Nat.add_assoc]

end Corridor

variable {R : Type} [Scalar R] {n m : Int}

theorem knotTimes_prefix (h : n ≤ m) (step : R) : knotTimes n step <+: knotTimes m step := by
  have hfirst : List.range n.toNat <+: List.range m.toNat := by
    rw [List.prefix_iff_eq_take, List.length_range, List.take_range,
      Nat.min_eq_left (Int.toNat_le_toNat h)]
  exact hfirst.map _

namespace Corridor

/-- A walk through more knots is a longer walk. If it comes to its end, so does the
    shorter one, with the openings of its own knots. Where the shorter one stops,
    the longer one stops with it. -/
theorem openings_longer {α : Type} (opening : Nat → R → Outcome R α) (h : n ≤ m) (step : R) :
    (openings opening 0 (knotTimes n step)).notices <+:
      (openings opening 0 (knotTimes m step)).notices ∧
    (∀ os, (openings opening 0 (knotTimes m step)).result = .ok os →
      (openings opening 0 (knotTimes n step)).result = .ok (os.take n.toNat)) ∧
    ∀ e, (openings opening 0 (knotTimes n step)).result = .error e →
      openings opening 0 (knotTimes m step) = openings opening 0 (knotTimes n step) := by
  rcases knotTimes_prefix h step with ⟨later, hlater⟩
  rw [← hlater, openings_append]
  refine ⟨Outcome.notices_prefix_bind _ _, fun os hos => ?_, fun e he => ?_⟩
  · rcases Outcome.bind_ok_iff.mp hos with ⟨os₁, hfirst, hos⟩
    rcases Outcome.bind_ok_iff.mp hos with ⟨os₂, _, hos⟩
    have hlength : os₁.length = n.toNat :=
      (length_openings hfirst).trans (length_knotTimes n step)
    rw [hfirst, ← Except.ok.inj hos, List.take_left' hlength]
  · -- Nothing is done about the later knots.
    rw [Outcome.bind_of_error he, ← he]

/-- The first knots of a corridor. -/
def first (k : Nat) (corridor : Corridor R) : Corridor R :=
  ⟨corridor.hard.take k, corridor.soft.take k⟩

/-- A corridor as it is read off the openings of its knots. -/
def readOff {α : Type} (read : List α → Corridor R) (opening : Nat → R → Outcome R α)
    (step : R) (knots : Int) : Outcome R (Corridor R) :=
  openings opening 0 (knotTimes knots step) >>= fun os => pure (read os)

/-- A longer walk does to a corridor what it does to the openings, if those of the
    first knots are read as the first knots. -/
theorem readOff_longer {α : Type} {read : List α → Corridor R}
    (hread : ∀ k os, read (os.take k) = (read os).first k) (opening : Nat → R → Outcome R α)
    (h : n ≤ m) (step : R) :
    (readOff read opening step n).notices <+: (readOff read opening step m).notices ∧
    (∀ corridor, (readOff read opening step m).result = .ok corridor →
      (readOff read opening step n).result = .ok (corridor.first n.toNat)) ∧
    ∀ e, (readOff read opening step n).result = .error e →
      readOff read opening step m = readOff read opening step n := by
  rcases openings_longer opening h step with ⟨hnotices, hok, herror⟩
  refine ⟨?_, fun corridor hc => ?_, fun e he => ?_⟩
  · rw [readOff, readOff, Outcome.notices_bind_pure, Outcome.notices_bind_pure]
    exact hnotices
  · rcases Outcome.bind_ok_iff.mp hc with ⟨os, hos, hc⟩
    rw [← Except.ok.inj hc, ← hread]
    exact Outcome.bind_ok_iff.mpr ⟨_, hok os hos, rfl⟩
  · rcases Outcome.bind_error_iff.mp he with he | ⟨os, _, he⟩
    · rw [readOff, readOff, herror e he]
    · exact absurd he (by simp only [Outcome.result_pure, reduceCtorEq, not_false_eq_true])

/-- More knots change nothing at the earlier ones, in either mode. If there is a
    corridor for all of them, there is one for fewer, and it has the first hard and
    soft intervals of the longer one. If there is none for fewer, all outcomes with
    more are the same failure, at the same knot, with the same notices. -/
theorem compile_longer (h : n ≤ m) (regions : List (Region R)) (step length : R)
    (rough : SpeedSeries R) (brake : Option (SpeedSeries R)) (c : Comfort R)
    (p : PlanSettings R) :
    (compile regions n step length rough brake c p).notices <+:
      (compile regions m step length rough brake c p).notices ∧
    (∀ corridor, (compile regions m step length rough brake c p).result = .ok corridor →
      (compile regions n step length rough brake c p).result =
        .ok ⟨corridor.hard.take n.toNat, corridor.soft.take n.toNat⟩) ∧
    ∀ e, (compile regions n step length rough brake c p).result = .error e →
      compile regions m step length rough brake c p =
        compile regions n step length rough brake c p := by
  unfold compile
  by_cases hmode : c.softBounds = true
  · rw [if_pos hmode, if_pos hmode]
    refine readOff_longer (fun k os => ?_) _ h step
    simp only [first, List.map_take]
  · rw [if_neg hmode, if_neg hmode]
    refine readOff_longer (fun k os => ?_) _ h step
    simp only [first, List.take_nil]

/-! The convoy and the gap -/

/-- The corridor through a convoy is the same for two knots as for three. The gap that
    has closed at the third knot closes there in any longer horizon. -/
theorem compile_longer_convoy :
    (2 : Int) ≤ 3 ∧ (3 : Int) ≤ 100 ∧
      (compile convoy 3 1 50 convoyPlan (some convoyStop) .usual .usual).result =
        .ok ⟨[(6, 19), (15, 20), (179 / 10, 101 / 5)],
          [(139 / 10, 14), (149 / 10, 15), (159 / 10, 16)]⟩ ∧
      (compile convoy 2 1 50 convoyPlan (some convoyStop) .usual .usual).result =
        .ok ⟨[(6, 19), (15, 20)], [(139 / 10, 14), (149 / 10, 15)]⟩ ∧
      ∃ e, (compile closingGap 3 1 50 convoyPlan none
          { Comfort.usual with softBounds := false } .usual).result = .error e ∧
        (compile closingGap 100 1 50 convoyPlan none
          { Comfort.usual with softBounds := false } .usual).result = .error e ∧
        failedAt (.error e) = some 2 := by
  have hwhole : (compile convoy 3 1 50 convoyPlan (some convoyStop) .usual .usual).result =
      .ok ⟨[(6, 19), (15, 20), (179 / 10, 101 / 5)],
        [(139 / 10, 14), (149 / 10, 15), (159 / 10, 16)]⟩ :=
    result_of_intervals (by decide +kernel)
  have hthird : failedAt (compile closingGap 3 1 50 convoyPlan none
      { Comfort.usual with softBounds := false } .usual).result = some 2 := by decide +kernel
  refine ⟨by decide, by decide, hwhole, (compile_longer (by decide) _ _ _ _ _ _ _).2.1 _ hwhole,
    ?_⟩
  rcases hresult : (compile closingGap 3 1 50 convoyPlan none
      { Comfort.usual with softBounds := false } .usual).result with e | corridor
  · rw [hresult] at hthird
    refine ⟨e, rfl, ?_, hthird⟩
    rw [(compile_longer (by decide) _ _ _ _ _ _ _).2.2 e hresult, hresult]
  · rw [hresult] at hthird
    exact absurd hthird (Option.some_ne_none _).symm

end Corridor

end JerkPlan
