import JerkPlan.Proofs.Exact
import JerkPlan.Proofs.Results
import JerkPlan.Planner

/-!
# Checked settings

What settings that passed their check have in common.

A check looks for the first fault and gives its argument back when there is
none. Read the other way round it is a promise about every planner that is in
service: its step, its margins and its budgets are positive, its weights are
not negative, and no range of a fit is turned round. All that a proof has to
know of the settings is in the structures here.

The ranges of a fit come out of lists, so settings of a fit are not checked
again but are the outcome of a checked draft.

## Main definitions

* `PlanSettings.Sound`, `FitSettings.Sound`: What the checks establish.
* `Planner.Checked`: A planner made of checked settings.

## Theorems

* `needPositive_iff`, `needWeights_iff`: The single checks, and their quiet
  variants.
* `PlanSettings.checked_iff`, `Comfort.checked_iff`, `Vehicle.checked_iff`:
  Settings pass exactly when they are sound.
* `FitDraft.checked_sound`, `FitDraft.checked_iff`: A checked draft becomes
  sound settings.
* `Planner.usual_checked`: The usual settings pass.
-/

namespace JerkPlan

variable {R : Type} [ExactScalar R]

/-! Single checks -/

theorem needPositive_iff {setting : String} {x : R} :
    needPositive setting x = .ok () ↔ 0 < x := by
  rw [needPositive, ite_error_iff, not_le, and_iff_left rfl]

theorem needPositiveQuietly_iff {setting : String} {x : R} :
    needPositiveQuietly setting x = .ok () ↔ 0 < x := by
  rw [needPositiveQuietly, ite_error_iff, not_le, and_iff_left rfl]

theorem needWeights_iff (ws : List (String × R)) :
    needWeights ws = .ok () ↔ ∀ w ∈ ws, 0 ≤ w.2 := by
  induction ws with
  | nil => exact ⟨fun _ w hw => absurd hw List.not_mem_nil, fun _ => rfl⟩
  | cons w ws ih => rw [needWeights, ite_error_iff, not_lt, List.forall_mem_cons, ih]

theorem needWeightsQuietly_iff (ws : List (String × R)) :
    needWeightsQuietly ws = .ok () ↔ ∀ w ∈ ws, 0 ≤ w.2 := by
  induction ws with
  | nil => exact ⟨fun _ w hw => absurd hw List.not_mem_nil, fun _ => rfl⟩
  | cons w ws ih => rw [needWeightsQuietly, ite_error_iff, not_lt, List.forall_mem_cons, ih]

/-- A range that is taken is not turned round. -/
theorem rangeOf_ordered {setting : String} {ends : List R} {b : R × R}
    (h : rangeOf setting ends = .ok b) : b.1 ≤ b.2 := by
  unfold rangeOf at h
  split at h
  · next l u =>
      rcases ite_error_ok h with ⟨hle, h⟩
      rw [Except.ok.injEq] at h
      rw [← h]
      exact not_lt.mp hle
  · exact absurd h (by simp only [reduceCtorEq, not_false_eq_true])

/-! Groups of settings -/

/-- What the check of a plan's settings establishes. -/
structure PlanSettings.Sound (p : PlanSettings R) : Prop where
  step_pos : 0 < p.step
  weights : ∀ w ∈ [p.accelerationWeight, p.jerkWeight, p.lateralWeight, p.progressWeight,
    p.cruiseWeight, p.referenceWeight, p.softWeight, p.guideWeight], 0 ≤ w
  budgets : 0 < p.convexBudget ∧ 0 < p.refinementBudget
  margin_pos : 0 < p.boundMargin

/-- What the check of a fit's settings establishes. -/
structure FitSettings.Sound (f : FitSettings R) : Prop where
  spacing_pos : 0 < f.spacing
  budget_pos : 0 < f.budget
  xRange : f.xRange.1 ≤ f.xRange.2
  dxRange : f.dxRange.1 ≤ f.dxRange.2
  ddxRange : f.ddxRange.1 ≤ f.ddxRange.2
  dddxRange : f.dddxRange.1 ≤ f.dddxRange.2
  weights : ∀ w ∈ [f.xWeight, f.dxWeight, f.ddxWeight, f.dddxWeight, f.referenceWeight], 0 ≤ w

/-- Settings of a plan pass their check exactly when they are sound. -/
theorem PlanSettings.checked_iff (p : PlanSettings R) : p.checked = .ok p ↔ p.Sound := by
  constructor
  · intro h
    rcases bind_eq_ok_iff.mp h with ⟨_, hstep, h⟩
    rcases bind_eq_ok_iff.mp h with ⟨_, hweights, h⟩
    rcases ite_error_ok h with ⟨hbudgets, h⟩
    rcases bind_eq_ok_iff.mp h with ⟨_, hmargin, _⟩
    have hsigns := (needWeights_iff _).mp hweights
    refine ⟨needPositive_iff.mp hstep, fun w hw => ?_, by omega,
      needPositiveQuietly_iff.mp hmargin⟩
    -- The check pairs each weight with its name, so the list is taken apart.
    simp only [List.forall_mem_cons] at hsigns
    simp only [List.mem_cons, List.not_mem_nil, or_false] at hw
    rcases hsigns with ⟨h₁, h₂, h₃, h₄, h₅, h₆, h₇, h₈, _⟩
    rcases hw with rfl | rfl | rfl | rfl | rfl | rfl | rfl | rfl <;> assumption
  · intro h
    have hsigns := h.weights
    have hbudgets : ¬ (p.convexBudget ≤ 0 ∨ p.refinementBudget ≤ 0) := by
      have := h.budgets
      omega
    simp only [List.forall_mem_cons] at hsigns
    unfold checked
    rw [needPositive_iff.mpr h.step_pos, (needWeights_iff _).mpr (by simpa using hsigns),
      if_neg hbudgets, needPositiveQuietly_iff.mpr h.margin_pos]
    rfl

/-- Comfort passes its check when it allows jerk and goes on in time. -/
theorem Comfort.checked_iff (c : Comfort R) :
    c.checked = .ok c ↔ 0 < c.jerkUpper ∧ 0 < c.publishUnit := by
  constructor
  · intro h
    rcases bind_eq_ok_iff.mp h with ⟨_, hjerk, h⟩
    rcases bind_eq_ok_iff.mp h with ⟨_, hunit, _⟩
    exact ⟨needPositiveQuietly_iff.mp hjerk, needPositiveQuietly_iff.mp hunit⟩
  · intro ⟨hjerk, hunit⟩
    unfold checked
    rw [needPositiveQuietly_iff.mpr hjerk, needPositiveQuietly_iff.mpr hunit]
    rfl

/-- A vehicle passes its check when it can speed up and its braking is not
    nothing. -/
theorem Vehicle.checked_iff (v : Vehicle R) :
    v.checked = .ok v ↔ 0 < v.maxAcceleration ∧ v.maxDeceleration ≠ 0 := by
  constructor
  · intro h
    rcases bind_eq_ok_iff.mp h with ⟨_, hacceleration, h⟩
    refine ⟨needPositive_iff.mp hacceleration, fun hzero => ?_⟩
    simp only [(same_iff _ _).mpr hzero, if_true] at h
    exact absurd h (by simp [bind, Except.bind])
  · intro ⟨hacceleration, hbrakes⟩
    unfold checked
    rw [needPositive_iff.mpr hacceleration]
    simp only [same_eq_false hbrakes, Bool.false_eq_true, if_false]
    rfl

/-- A draft that passes its check becomes sound settings. -/
theorem FitDraft.checked_sound {d : FitDraft R} {f : FitSettings R} (h : d.checked = .ok f) :
    f.Sound := by
  rcases bind_eq_ok_iff.mp h with ⟨_, hspacing, h⟩
  rcases ite_error_ok h with ⟨hbudget, h⟩
  rcases bind_eq_ok_iff.mp h with ⟨x, hx, h⟩
  rcases bind_eq_ok_iff.mp h with ⟨dx, hdx, h⟩
  rcases bind_eq_ok_iff.mp h with ⟨ddx, hddx, h⟩
  rcases bind_eq_ok_iff.mp h with ⟨dddx, hdddx, h⟩
  rcases bind_eq_ok_iff.mp h with ⟨_, hweights, h⟩
  have hsigns := (needWeightsQuietly_iff _).mp hweights
  simp only [List.forall_mem_cons] at hsigns
  rcases hsigns with ⟨h₁, h₂, h₃, h₄, h₅, _⟩
  -- What the draft becomes are its own values and the ranges just read.
  have hf := Except.ok.inj h
  subst hf
  exact
    { spacing_pos := needPositive_iff.mp hspacing
      budget_pos := not_le.mp hbudget
      xRange := rangeOf_ordered hx
      dxRange := rangeOf_ordered hdx
      ddxRange := rangeOf_ordered hddx
      dddxRange := rangeOf_ordered hdddx
      weights := by simpa using ⟨h₁, h₂, h₃, h₄, h₅⟩ }

/-- Settings of a fit are the outcome of a checked draft exactly when they are
    sound. -/
theorem FitDraft.checked_iff (f : FitSettings R) :
    (∃ d : FitDraft R, d.checked = .ok f) ↔ f.Sound := by
  constructor
  · rintro ⟨d, hd⟩
    exact checked_sound hd
  · intro h
    have hsigns := h.weights
    simp only [List.forall_mem_cons] at hsigns
    -- The draft with the same values, each range as a list of its two ends.
    refine ⟨⟨f.spacing, f.budget, f.samples, [f.xRange.1, f.xRange.2], [f.dxRange.1, f.dxRange.2],
      [f.ddxRange.1, f.ddxRange.2], [f.dddxRange.1, f.dddxRange.2], f.xWeight, f.dxWeight,
      f.ddxWeight, f.dddxWeight, f.referenceWeight⟩, ?_⟩
    unfold checked
    simp only [rangeOf, if_neg (not_lt.mpr h.xRange), if_neg (not_lt.mpr h.dxRange),
      if_neg (not_lt.mpr h.ddxRange), if_neg (not_lt.mpr h.dddxRange),
      if_neg (not_le.mpr h.budget_pos)]
    rw [needPositive_iff.mpr h.spacing_pos, (needWeightsQuietly_iff _).mpr (by simpa using hsigns)]
    rfl

/-! The usual settings -/

theorem PlanSettings.usual_checked :
    PlanSettings.usual.checked = .ok (PlanSettings.usual : PlanSettings R) := by
  refine (checked_iff _).mpr ⟨decimal_pos (by omega) 1, ?_, ⟨?_, ?_⟩, decimal_pos (by omega) 1⟩
  all_goals simp only [usual]
  all_goals try omega
  simp only [List.forall_mem_cons]
  exact ⟨Nat.cast_nonneg 2, Nat.cast_nonneg 3, Nat.cast_nonneg 1000, (decimal_pos (by omega) 2).le,
    Nat.cast_nonneg 5, Nat.cast_nonneg 100, Nat.cast_nonneg 1000000,
    (decimal_pos (by omega) 2).le, by simp⟩

theorem Comfort.usual_checked : Comfort.usual.checked = .ok (Comfort.usual : Comfort R) :=
  (checked_iff _).mpr ⟨Nat.cast_pos.mpr (by omega), decimal_pos (by omega) 1⟩

theorem Vehicle.usual_checked : Vehicle.usual.checked = .ok (Vehicle.usual : Vehicle R) :=
  (checked_iff _).mpr ⟨Nat.cast_pos.mpr (by omega), Nat.cast_ne_zero.mpr (by omega)⟩

/-- A planner whose settings have all passed their checks, those of its two
    fits as drafts. -/
structure Planner.Checked (p : Planner R) : Prop where
  settings : p.settings.checked = .ok p.settings
  comfort : p.comfort.checked = .ok p.comfort
  vehicle : p.vehicle.checked = .ok p.vehicle
  curvatureFit : ∃ d : FitDraft R, d.checked = .ok p.settings.curvatureFit
  limitFit : ∃ d : FitDraft R, d.checked = .ok p.settings.limitFit

theorem FitSettings.curvature_sound : (FitSettings.curvature : FitSettings R).Sound := by
  have hten : (0 : R) ≤ ((10 : Nat) : R) := Nat.cast_nonneg 10
  have hends : -((10 : Nat) : R) ≤ ((10 : Nat) : R) := by linarith
  have hbudget : (0 : Int) < 1000 := by omega
  refine ⟨decimal_pos (by omega) 1, hbudget, ?_, hends, hends, hends, ?_⟩
  · simp only [curvature]
    linarith [one_pos (α := R)]
  · simp only [curvature, List.forall_mem_cons]
    exact ⟨le_rfl, hten, hten, hten, hten, by simp⟩

/-- The fit of a speed limit has the weights of that of a curvature, and the
    same ranges of all derivatives. -/
theorem FitSettings.speedLimit_sound : (FitSettings.speedLimit : FitSettings R).Sound := by
  have hbudget : (0 : Int) < 4000 := by omega
  exact { (curvature_sound : (curvature : FitSettings R).Sound) with
    spacing_pos := Nat.cast_pos.mpr (by omega)
    budget_pos := hbudget
    xRange := Nat.cast_nonneg 50 }

theorem Planner.usual_checked : (Planner.usual : Planner R).Checked where
  settings := PlanSettings.usual_checked
  comfort := Comfort.usual_checked
  vehicle := Vehicle.usual_checked
  curvatureFit := (FitDraft.checked_iff _).mpr FitSettings.curvature_sound
  limitFit := (FitDraft.checked_iff _).mpr FitSettings.speedLimit_sound

end JerkPlan
