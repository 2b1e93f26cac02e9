import JerkPlan.Proofs.CurveTables

/-!
# Cold starts

Where a solver begins without a warm start.

A cold start goes on at a constant speed. Each place is clamped to the ceiling of its
own knot, and a running maximum then keeps the places from going backwards. The two
corrections work against each other. At constant speed places never go backwards of
themselves, so the maximum has something to do only after a ceiling that comes down,
and what it does there is to take the place beyond that ceiling again.

`runningMax_isGreatest` is all that has to be known of the maximum: an entry is the
greatest of those up to it. Order follows from it, and so does the condition under
which a place keeps within its ceiling, which is about the earlier knots only.

## Main definitions

* `RefinementProblem.clampedPlace`: A place at constant speed, at most its ceiling.

## Theorems

* `RefinementProblem.runningMax_isGreatest`, `RefinementProblem.pairwise_runningMax`:
  The running maximum of a list.
* `RefinementProblem.coldPlaces_eq`: The places of a cold start.
* `RefinementProblem.le_ceiling_iff`: When a place keeps within its ceiling.
* `RefinementProblem.le_ceiling_iff_unmoved`: Where the maximum makes a difference.
* `RefinementProblem.startingPoint_cold`: The starting point without a warm start.
* `RefinementProblem.startingPoint_beyond`: A place beyond its ceiling.
-/

namespace JerkPlan

namespace RefinementProblem

section Ordered

variable {R : Type} [OrderedScalar R]

theorem length_runningMax_go (ys : List R) : ∀ m, (runningMax.go m ys).length = ys.length + 1 := by
  induction ys with
  | nil => exact fun m => rfl
  | cons y ys ih => exact fun m => congrArg (· + 1) (ih _)

theorem length_runningMax (xs : List R) : (runningMax xs).length = xs.length := by
  cases xs with
  | nil => rfl
  | cons x xs => exact length_runningMax_go xs x

/-- Going on from a maximum, which stands in for the entries that it has been taken of. -/
theorem runningMax_go_isGreatest {x : R} (ys : List R) :
    ∀ (m : R) (i : Nat), (runningMax.go m ys)[i]? = some x →
      IsGreatest {y : R | ∃ j ≤ i, (m :: ys)[j]? = some y} x := by
  induction ys with
  | nil =>
      intro m i h
      refine ⟨⟨i, Nat.le_refl i, h⟩, ?_⟩
      rintro y ⟨j, _, hy⟩
      have hx := List.mem_singleton.mp (List.mem_of_getElem? h)
      have hy := List.mem_singleton.mp (List.mem_of_getElem? hy)
      rw [hx, hy]
  | cons y ys ih =>
      intro m i h
      cases i with
      | zero =>
          rw [runningMax.go, List.getElem?_cons_zero, Option.some.injEq] at h
          refine ⟨⟨0, Nat.le_refl 0, by rw [List.getElem?_cons_zero, h]⟩, ?_⟩
          rintro z ⟨j, hj, hz⟩
          rw [Nat.le_zero.mp hj, List.getElem?_cons_zero, Option.some.injEq] at hz
          rw [← hz, h]
      | succ i =>
          rw [runningMax.go, List.getElem?_cons_succ, greater_eq_max] at h
          rcases ih _ i h with ⟨⟨j, hj, hx⟩, hupper⟩
          have hhead : max m y ≤ x := hupper ⟨0, Nat.zero_le i, List.getElem?_cons_zero⟩
          constructor
          · cases j with
            | zero =>
                -- The larger of the two is one of the first two entries.
                rw [List.getElem?_cons_zero, Option.some.injEq] at hx
                rcases max_choice m y with hm | hy
                · exact ⟨0, Nat.zero_le _, by rw [List.getElem?_cons_zero, ← hm, hx]⟩
                · exact ⟨1, by omega, by
                    rw [List.getElem?_cons_succ, List.getElem?_cons_zero, ← hy, hx]⟩
            | succ j => exact ⟨j + 2, by omega, hx⟩
          · rintro z ⟨k, hk, hz⟩
            rcases k with _ | _ | k
            · rw [List.getElem?_cons_zero, Option.some.injEq] at hz
              exact hz ▸ (le_max_left m y).trans hhead
            · rw [List.getElem?_cons_succ, List.getElem?_cons_zero, Option.some.injEq] at hz
              exact hz ▸ (le_max_right m y).trans hhead
            · exact hupper ⟨k + 1, by omega, hz⟩

/-- An entry of the running maximum is the greatest of all entries up to it. -/
theorem runningMax_isGreatest {xs : List R} {i : Nat} {x : R}
    (h : (runningMax xs)[i]? = some x) : IsGreatest {y : R | ∃ j ≤ i, xs[j]? = some y} x := by
  cases xs with
  | nil => exact absurd h (by simp [runningMax])
  | cons x xs => exact runningMax_go_isGreatest xs x i h

/-- The running maximum never goes back. -/
theorem pairwise_runningMax (xs : List R) : (runningMax xs).Pairwise (· ≤ ·) := by
  rw [List.pairwise_iff_getElem]
  intro i j hi hj hij
  have hearlier := runningMax_isGreatest (List.getElem?_eq_getElem hi)
  have hlater := runningMax_isGreatest (List.getElem?_eq_getElem hj)
  -- Whatever comes up to the earlier entry also comes up to the later one.
  exact hearlier.mono hlater fun y ⟨k, hk, hy⟩ => ⟨k, hk.trans hij.le, hy⟩

end Ordered

variable {R : Type} [ExactScalar R] {p : RefinementProblem R}

/-- Where constant speed leads to until a knot, or the ceiling there if that comes
    before it. -/
def clampedPlace (p : RefinementProblem R) (i : Nat) (b : R × R) : R :=
  min (p.horizon.place + p.coldSpeed * (i : R) * p.horizon.step) b.2

/-- The speed of a cold start is not negative and not beyond the top speed. -/
theorem coldSpeed_between (htop : 0 ≤ p.horizon.topSpeed) :
    0 ≤ p.coldSpeed ∧ p.coldSpeed ≤ p.horizon.topSpeed := by
  rw [coldSpeed, lesser_eq_min, greater_eq_max]
  exact ⟨le_min (le_max_right _ _) htop, min_le_right _ _⟩

/-- With a ceiling for each knot, the places are the running maximum of the clamped
    ones. -/
theorem coldPlaces_eq (hhard : p.hard.length = p.knots) :
    p.coldPlaces = .ok (runningMax (p.hard.mapIdx p.clampedPlace)) := by
  rcases mapM_total _ fun i hi => coldPlace_total (r := p) (i := i)
    (by rw [hhard]; exact List.mem_range.mp hi) with ⟨places, hplaces, hlength⟩
  rw [List.length_range] at hlength
  refine bind_eq_ok_iff.mpr ⟨places, hplaces, congrArg (Except.ok ∘ runningMax) ?_⟩
  apply List.ext_getElem?
  intro i
  by_cases hi : i < p.knots
  · -- Each knot has a ceiling, so the place there is the clamped one.
    have hb : p.hard[i]? = some p.hard[i] := List.getElem?_eq_getElem (by omega)
    have hx : places[i]? = some places[i] := List.getElem?_eq_getElem (by omega)
    have hplace := mapM_entry _ hplaces i _ _ (List.getElem?_range hi) hx
    rw [hb, Except.ok.injEq, lesser_eq_min] at hplace
    rw [hx, ← hplace, List.getElem?_mapIdx, hb, Option.map_some]
    rfl
  · rw [List.getElem?_eq_none (by omega), List.getElem?_eq_none (by rw [List.length_mapIdx]; omega)]

section Places

variable {i : Nat} {x : R} {b : R × R}

theorem clamped_getElem? {j : Nat} {y : R} : (p.hard.mapIdx p.clampedPlace)[j]? = some y ↔
    ∃ c, p.hard[j]? = some c ∧ p.clampedPlace j c = y := by
  rw [List.getElem?_mapIdx, Option.map_eq_some_iff]

/-- A place keeps within its ceiling exactly when none of the clamped places before it
    is beyond that ceiling. -/
theorem le_ceiling_iff (hx : IsGreatest {y | ∃ j ≤ i, ∃ c, p.hard[j]? = some c ∧
      p.clampedPlace j c = y} x) (hb : p.hard[i]? = some b) :
    x ≤ b.2 ↔ ∀ j < i, ∀ c, p.hard[j]? = some c → p.clampedPlace j c ≤ b.2 := by
  constructor
  · intro hle j hj c hc
    exact (hx.2 ⟨j, hj.le, c, hc, rfl⟩).trans hle
  · intro h
    rcases hx.1 with ⟨j, hj, c, hc, rfl⟩
    rcases Nat.lt_or_eq_of_le hj with hlt | rfl
    · exact h j hlt c hc
    · rw [hb, Option.some.injEq] at hc
      rw [← hc]
      exact min_le_right _ _

/-- The maximum leaves a place where it was clamped to exactly when the place keeps
    within its ceiling. So all that it ever does is to go beyond one. -/
theorem le_ceiling_iff_unmoved (htop : 0 ≤ p.horizon.topSpeed) (hstep : 0 ≤ p.horizon.step)
    (hx : IsGreatest {y | ∃ j ≤ i, ∃ c, p.hard[j]? = some c ∧ p.clampedPlace j c = y} x)
    (hb : p.hard[i]? = some b) : x ≤ b.2 ↔ x = p.clampedPlace i b := by
  constructor
  · intro hle
    refine le_antisymm ?_ (hx.2 ⟨i, Nat.le_refl i, b, hb, rfl⟩)
    rcases hx.1 with ⟨j, hj, c, _, rfl⟩
    refine le_min ((min_le_left _ _).trans ?_) hle
    -- At constant speed nothing before the knot is farther than the knot.
    have hknots : (j : R) ≤ (i : R) := Nat.cast_le.mpr hj
    have hspeed := mul_le_mul_of_nonneg_left hknots (coldSpeed_between htop).1
    linarith [mul_le_mul_of_nonneg_right hspeed hstep]
  · intro h
    rw [h]
    exact min_le_right _ _

end Places

theorem length_coldPoint {places : List R} (h : places.length = p.knots) :
    (places ++ List.replicate p.knots p.coldSpeed ++ List.replicate p.knots 0 ++
      List.replicate (if p.usesSoft then 2 * p.knots else 0) 0).length =
      (if p.usesSoft then 5 else 3) * p.knots := by
  simp only [List.length_append, List.length_replicate, h]
  by_cases hsoft : p.usesSoft = true
  · rw [if_pos hsoft, if_pos hsoft]
    omega
  · rw [if_neg hsoft, if_neg hsoft]
    omega

/-- Without a warm start there is a place, a speed and an acceleration for each knot, and
    a slack for each knot and side of the soft corridor, as many as the lists of the
    problem bound. The places never go back. Each is the greatest of the clamped places
    up to its knot, so it keeps within its ceiling exactly when none of the earlier ones
    is beyond that, and then the maximum has left it where it was. The speed is constant
    and within its limits, and everything else is zero. -/
theorem startingPoint_cold (hcold : p.warmStart = none) (hhard : p.hard.length = p.knots)
    (htop : 0 ≤ p.horizon.topSpeed) :
    ∃ places z : List R, p.startingPoint = .ok z ∧
      z = places ++ List.replicate p.knots p.coldSpeed ++ List.replicate p.knots 0 ++
        List.replicate (if p.usesSoft then 2 * p.knots else 0) 0 ∧
      places.length = p.knots ∧ places.Pairwise (· ≤ ·) ∧
      (∀ i x b, places[i]? = some x → p.hard[i]? = some b →
        IsGreatest {y | ∃ j ≤ i, ∃ c, p.hard[j]? = some c ∧ p.clampedPlace j c = y} x ∧
          (x ≤ b.2 ↔ ∀ j < i, ∀ c, p.hard[j]? = some c → p.clampedPlace j c ≤ b.2) ∧
          (0 ≤ p.horizon.step → (x ≤ b.2 ↔ x = p.clampedPlace i b))) ∧
      (0 ≤ p.coldSpeed ∧ p.coldSpeed ≤ p.horizon.topSpeed) ∧
      z.length = (if p.usesSoft then 5 else 3) * p.knots ∧
      ∀ q, p.build = .ok q → q.lower.length = z.length ∧ q.upper.length = z.length := by
  have hlength : (runningMax (p.hard.mapIdx p.clampedPlace)).length = p.knots := by
    rw [length_runningMax, List.length_mapIdx, hhard]
  have hcount := length_coldPoint hlength
  refine ⟨_, _, ?_, rfl, hlength, pairwise_runningMax _, fun i x b hx hb => ?_,
    coldSpeed_between htop, hcount, fun q hq => ?_⟩
  · simp only [startingPoint, hcold, coldPlaces_eq hhard]
    by_cases hsoft : p.usesSoft = true
    · simp only [hsoft, if_true]
      rfl
    · simp only [hsoft, Bool.false_eq_true, if_false, List.replicate_zero, List.append_nil]
      rfl
  · have hgreatest := runningMax_isGreatest hx
    simp only [clamped_getElem?] at hgreatest
    exact ⟨hgreatest, le_ceiling_iff hgreatest hb, fun hstep =>
      le_ceiling_iff_unmoved htop hstep hgreatest hb⟩
  · -- Lists are built only if there is a corridor, and so a knot.
    rcases bind_eq_ok_iff.mp hq with ⟨⟨kappa, bound⟩, hsplines, hq⟩
    rcases splines_ok hsplines with ⟨_, _, reach, _, _, hreach, _⟩
    have hsome : p.hard ≠ [] := by
      intro hnone
      rw [RefinementProblem.reach, hnone] at hreach
      exact absurd hreach (by simp only [reduceCtorEq, not_false_eq_true])
    have hknots : 0 < p.knots := by
      rw [← hhard]
      exact List.length_pos_iff.mpr hsome
    rw [← Except.ok.inj hq, hcount, ← length_variableBounds hhard]
    constructor
    · rw [lists_lower hknots hhard, List.length_map]
    · rw [lists_upper hknots hhard, List.length_map]

/-! A ceiling that comes down -/

/-- Somebody comes closer while the vehicle goes on at five. -/
def closing : RefinementProblem Rat :=
  { RefinementProblem.ofHorizon { crowded with knots := 3, speed := 5, topSpeed := 6 } with
    hard := [(0, 100), (0, 5), (0, 2)]
    soft := [(0, 90), (0, 4), (0, 1)]
    curvature := some (.ofStart ⟨0, 0, 0⟩)
    limit := some (.ofStart ⟨5, 0, 0⟩) }

theorem startingPoint_closing :
    closing.startingPoint = .ok [0, 5, 5, 5, 5, 5, 0, 0, 0, 0, 0, 0, 0, 0, 0] := by
  have hpoint : closing.startingPoint.toOption.map id =
      some [0, 5, 5, 5, 5, 5, 0, 0, 0, 0, 0, 0, 0, 0, 0] := by decide +kernel
  rcases exists_of_toOption_map hpoint with ⟨z, hz, rfl⟩
  exact hz

/-- At the third knot constant speed would lead to ten, the ceiling is two, and the start
    stays at five, where it was at the second knot. -/
theorem startingPoint_cold_closing :
    closing.warmStart = none ∧ closing.hard.length = closing.knots ∧
      0 ≤ closing.horizon.topSpeed ∧ ∃ places z : List Rat, closing.startingPoint = .ok z ∧
        places = [0, 5, 5] ∧ z.drop 3 = [5, 5, 5, 0, 0, 0, 0, 0, 0, 0, 0, 0] ∧
        IsGreatest {y | ∃ j ≤ 2, ∃ c, closing.hard[j]? = some c ∧ closing.clampedPlace j c = y} 5 ∧
        closing.clampedPlace 2 (0, 2) = 2 ∧
        ∃ q, closing.build = .ok q ∧ q.lower.length = 15 ∧ q.upper.length = 15 := by
  have htop : 0 ≤ closing.horizon.topSpeed := by decide
  rcases startingPoint_cold rfl rfl htop with
    ⟨places, z, hz, hparts, hlength, _, hplaces, _, hcount, hlists⟩
  rcases build_total (p := closing) rfl rfl (List.cons_ne_nil _ _) with ⟨kappa, bound, hbuild⟩
  have hvalues := Except.ok.inj (hz.symm.trans startingPoint_closing)
  have hthree : places.length = 3 := hlength
  have htake : places = z.take 3 := by
    rw [hparts, List.append_assoc, List.append_assoc, List.take_left' hthree]
  rw [hvalues] at htake
  refine ⟨rfl, rfl, htop, places, z, hz, htake, ?_, ?_, by decide +kernel, _, hbuild, ?_⟩
  · rw [hvalues]
    rfl
  · exact (hplaces 2 5 (0, 2) (by rw [htake]; rfl) rfl).1
  · exact ⟨(hlists _ hbuild).1.trans hcount, (hlists _ hbuild).2.trans hcount⟩

/-- So the start can be beyond a ceiling that it was clamped to. -/
theorem startingPoint_beyond :
    closing.warmStart = none ∧ closing.hard.length = closing.knots ∧
      0 ≤ closing.horizon.topSpeed ∧ ∃ z x b, closing.startingPoint = .ok z ∧
        z[2]? = some x ∧ closing.hard[2]? = some b ∧ b.2 < x :=
  ⟨rfl, rfl, by decide, _, 5, (0, 2), startingPoint_closing, rfl, rfl, by decide⟩

end RefinementProblem

end JerkPlan
