import Mathlib.Data.List.Induction
import JerkPlan.Horizon

/-!
# Histories of a checkpoint

What a checkpoint tells of everything that has happened to it.

A checkpoint has four fields, and each of them remembers something else. Profile and
stage are those of the last upgrade that was taken, and being upgraded is whether there
was one at all. The reason is about the last step only: an upgrade that is taken clears
it, and everything else, an upgrade that is turned down included, puts another one in
its place.

Whether an upgrade is taken depends on the size of the profile that is held. But every
profile that is taken has the size of the one before it, so the size is that of the
first one throughout, and `Step.offer` can tell what is taken without looking at the
history. `Tells.after` is what one step does, and the induction adds a step at the end.

## Main definitions

* `Checkpoint.Step`: What can happen to a checkpoint.
* `Checkpoint.run`: All that happens to it, in order.
* `Checkpoint.Step.offer`, `Checkpoint.Step.refusal`: What a step brings about, by the
  size of the profiles.
* `Checkpoint.Tells`: A checkpoint tells its history.

## Theorems

* `Checkpoint.Step.refusal_eq_none_iff`: A step gives a reason unless it is taken.
* `Checkpoint.Tells.after`: One more step.
* `Checkpoint.tells_run`: Every history.
* `Checkpoint.history_told`: What the fields of a checkpoint say.
-/

namespace JerkPlan

namespace Checkpoint

variable {R : Type}

/-- What can happen to a checkpoint: it is kept for a reason, or a stage wants to
    upgrade it. -/
inductive Step (R : Type)
  | keep (reason : String)
  | upgrade (profile : KnotProfile R) (stage : String)

/-- The checkpoint after a step. -/
def after (c : Checkpoint R) : Step R → Checkpoint R
  | .keep reason => c.keep reason
  | .upgrade profile stage => c.upgrade profile stage

/-- The checkpoint after all steps. -/
def run (c : Checkpoint R) (steps : List (Step R)) : Checkpoint R := steps.foldl after c

namespace Step

/-- The profile and the stage that a step puts in place of what is held, when profiles
    have a given size: those of an upgrade to a valid profile of that size. -/
def offer (size : Nat) : Step R → Option (KnotProfile R × String)
  | keep _ => none
  | upgrade profile stage =>
    if profile.valid = true ∧ profile.size = size then some (profile, stage) else none

/-- The reason that a step leaves behind, none if it is an upgrade that is taken. -/
def refusal (size : Nat) : Step R → Option String
  | keep reason => some reason
  | upgrade profile stage =>
    if profile.valid = true ∧ profile.size = size then none
    else some (stage ++ " returned an invalid profile")

end Step

/-- Going over to a profile that is valid and of the size of the one that is held. -/
theorem upgrade_of_fits {c : Checkpoint R} {profile : KnotProfile R} (stage : String)
    (h : profile.valid = true ∧ profile.size = c.profile.size) :
    c.upgrade profile stage = ⟨profile, stage, true, none⟩ := by
  simp only [upgrade, h.1, h.2, bne_self_eq_false, Bool.not_true, Bool.or_self,
    Bool.false_eq_true, if_false]

/-- Any other profile is turned down. -/
theorem upgrade_of_not_fits {c : Checkpoint R} {profile : KnotProfile R} (stage : String)
    (h : ¬ (profile.valid = true ∧ profile.size = c.profile.size)) :
    c.upgrade profile stage = c.keep (stage ++ " returned an invalid profile") := by
  have hrefused : (!profile.valid || profile.size != c.profile.size) = true := by
    by_cases hvalid : profile.valid = true
    · have hsize : profile.size ≠ c.profile.size := fun hsize => h ⟨hvalid, hsize⟩
      simp only [bne_iff_ne.mpr hsize, Bool.or_true]
    · simp only [Bool.not_eq_true] at hvalid
      simp only [hvalid, Bool.not_false, Bool.true_or]
  rw [upgrade, if_pos hrefused]

/-- A step either replaces everything by a valid profile of the same size and its stage,
    or it replaces the reason and nothing else. -/
theorem after_cases (c : Checkpoint R) (s : Step R) :
    (∃ profile stage, (profile.valid = true ∧ profile.size = c.profile.size) ∧
      s.offer c.profile.size = some (profile, stage) ∧ s.refusal c.profile.size = none ∧
      c.after s = ⟨profile, stage, true, none⟩) ∨
    ∃ reason, s.offer c.profile.size = none ∧ s.refusal c.profile.size = some reason ∧
      c.after s = c.keep reason := by
  cases s with
  | keep reason => exact Or.inr ⟨reason, rfl, rfl, rfl⟩
  | upgrade profile stage =>
      by_cases h : profile.valid = true ∧ profile.size = c.profile.size
      · exact Or.inl ⟨profile, stage, h, if_pos h, if_pos h, upgrade_of_fits stage h⟩
      · exact Or.inr ⟨_, if_neg h, if_neg h, upgrade_of_not_fits stage h⟩

/-- A checkpoint tells what has happened since it held a first profile of some stage.
    What it holds is the last of all profiles that were taken, with its stage, and
    otherwise the first one. The reason is that of the last step. -/
structure Tells (c : Checkpoint R) (first : KnotProfile R) (stage : String)
    (steps : List (Step R)) : Prop where
  valid : c.profile.valid = true
  size : c.profile.size = first.size
  held : (c.profile, c.stage) =
    ((steps.filterMap (·.offer first.size)).getLast?).getD (first, stage)
  upgraded : c.upgraded = true ↔ steps.filterMap (·.offer first.size) ≠ []
  reason : c.reason = steps.getLast?.bind (·.refusal first.size)

/-- A checkpoint goes on telling its history after one more step. -/
theorem Tells.after {c : Checkpoint R} {first : KnotProfile R} {stage : String}
    {steps : List (Step R)} (h : c.Tells first stage steps) (s : Step R) :
    (c.after s).Tells first stage (steps ++ [s]) := by
  have hlast : (steps ++ [s]).getLast? = some s := List.getLast?_concat
  have hsteps : (steps ++ [s]).filterMap (·.offer first.size) =
      steps.filterMap (·.offer first.size) ++ [s].filterMap (·.offer first.size) :=
    List.filterMap_append
  have hcases := c.after_cases s
  rw [h.size] at hcases
  rcases hcases with ⟨profile, name, hfits, hoffer, hrefusal, hafter⟩ |
    ⟨reason, hoffer, hrefusal, hafter⟩
  · -- The step is the last one that is taken, and it gives no reason.
    have hone : [s].filterMap (·.offer first.size) = [(profile, name)] := by
      rw [List.filterMap_cons_some hoffer, List.filterMap_nil]
    rw [hafter]
    refine ⟨hfits.1, hfits.2, ?_, ?_, ?_⟩
    · rw [hsteps, hone, List.getLast?_concat, Option.getD_some]
    · rw [hsteps, hone]
      exact ⟨fun _ => List.append_ne_nil_of_right_ne_nil _ (List.cons_ne_nil _ _), fun _ => rfl⟩
    · rw [hlast, Option.bind_some, hrefusal]
  · -- Nothing is taken, so all but the reason is as it was.
    have hnone : [s].filterMap (·.offer first.size) = [] := by
      rw [List.filterMap_cons_none hoffer, List.filterMap_nil]
    rw [hnone, List.append_nil] at hsteps
    rw [hafter]
    refine ⟨h.valid, h.size, ?_, ?_, ?_⟩
    · rw [hsteps]
      exact h.held
    · rw [hsteps]
      exact h.upgraded
    · rw [hlast, Option.bind_some, hrefusal]
      rfl

/-- A checkpoint tells its whole history, by induction with a step added at the end. -/
theorem tells_run {first : KnotProfile R} (hvalid : first.valid = true) (stage : String)
    (steps : List (Step R)) : (run { profile := first, stage } steps).Tells first stage steps := by
  induction steps using List.reverseRecOn with
  | nil =>
      refine ⟨hvalid, rfl, rfl, ?_, rfl⟩
      exact ⟨fun h => absurd h Bool.false_ne_true, fun h => absurd rfl h⟩
  | append_singleton steps s ih =>
      rw [run, List.foldl_append]
      exact ih.after s

/-- A step gives no reason exactly if it is an upgrade that is taken. -/
theorem Step.refusal_eq_none_iff {size : Nat} {s : Step R} :
    s.refusal size = none ↔ (s.offer size).isSome = true := by
  cases s with
  | keep reason => simp [refusal, offer]
  | upgrade profile stage =>
      by_cases h : profile.valid = true ∧ profile.size = size
      · simp [refusal, offer, h]
      · simp [refusal, offer, h]

/-- Whatever happens to a checkpoint, it holds a valid profile of the first size. This is
    the profile of the last upgrade that was taken, and its stage, or else the first one
    and its stage. It is upgraded exactly if an upgrade was taken, and lacks a reason
    exactly if the last step was such an upgrade or nothing has happened. -/
theorem history_told {first : KnotProfile R} (hvalid : first.valid = true) (stage : String)
    (steps : List (Step R)) :
    ∃ c, run { profile := first, stage } steps = c ∧
      (c.profile.valid = true ∧ c.profile.size = first.size) ∧
      (c.profile, c.stage) =
        ((steps.filterMap (·.offer first.size)).getLast?).getD (first, stage) ∧
      (c.upgraded = true ↔ ∃ s ∈ steps, (s.offer first.size).isSome = true) ∧
      (c.reason = none ↔
        steps = [] ∨ ∃ s, steps.getLast? = some s ∧ (s.offer first.size).isSome = true) ∧
      c.reason = steps.getLast?.bind (·.refusal first.size) := by
  have htells := tells_run hvalid stage steps
  refine ⟨_, rfl, ⟨htells.valid, htells.size⟩, htells.held, htells.upgraded.trans ?_, ?_,
    htells.reason⟩
  · rw [Ne, List.filterMap_eq_nil_iff]
    simp only [not_forall, exists_prop, Option.isSome_iff_ne_none]
  · rw [htells.reason]
    rcases hlast : steps.getLast? with _ | s
    · rw [List.getLast?_eq_none_iff.mp hlast]
      simp only [Option.bind_none, true_or]
    · have hsome : steps ≠ [] := by
        intro hnone
        rw [hnone] at hlast
        exact absurd hlast (by simp only [List.getLast?_nil, reduceCtorEq, not_false_eq_true])
      simp only [Option.bind_some, Step.refusal_eq_none_iff, hsome, false_or,
        Option.some.injEq, exists_eq_left']

/-! A history -/

/-- A plan of three knots. -/
def planned : KnotProfile Rat := ⟨[0, 1, 2], [1, 1, 1], [0, 0, 0]⟩

/-- A faster plan of as many knots. -/
def better : KnotProfile Rat := ⟨[0, 2, 4], [1, 2, 2], [1, 0, 0]⟩

/-- A plan of fewer knots. -/
def shorter : KnotProfile Rat := ⟨[0, 1], [1, 1], [0, 0]⟩

/-- A plan that has no speeds. -/
def lacking : KnotProfile Rat := ⟨[0, 1, 2], [], [0, 0, 0]⟩

/-- The better plan is taken and stays, since those offered after it are turned down. The
    reason is that of the last offer. -/
theorem history_told_better : planned.valid = true ∧
    ∃ c : Checkpoint Rat, run { profile := planned, stage := "qp" }
        [.keep "not yet", .upgrade better "nlp", .upgrade shorter "cut", .upgrade lacking "draft"] =
          c ∧
      c.profile = better ∧ c.stage = "nlp" ∧ c.upgraded = true ∧
      c.reason = some "draft returned an invalid profile" := by
  have hvalid : planned.valid = true := by decide
  rcases history_told hvalid "qp" [.keep "not yet", .upgrade better "nlp", .upgrade shorter "cut",
    .upgrade lacking "draft"] with ⟨c, hc, _, hheld, hupgraded, _, hreason⟩
  have hbetter : (c.profile, c.stage) = (better, "nlp") := hheld
  rw [Prod.mk.injEq] at hbetter
  exact ⟨hvalid, c, hc, hbetter.1, hbetter.2,
    hupgraded.mpr ⟨.upgrade better "nlp", by simp, rfl⟩, hreason⟩

end Checkpoint

end JerkPlan
