import JerkPlan.Proofs.Exact
import JerkPlan.Proofs.Results
import JerkPlan.KnotProblem

/-!
# The shape of problems over knots

What is true of every problem over knots, however it was put together.

A problem begins without bounds, weights or references, and these are set one
at a time, in any order and as often as one likes. `KnotProblem.Built` is that
process: its constructors are the ways to begin and to go on, each with the
check that may refuse it. Bounds are pairs of ends here, so that a side
without a bound is an infinite end.

The checks add up to a shape. There are two knots or more, a positive step,
three values to start from, and as many bounds of each kind as knots.
`Built.wellFormed` is the induction over the process, and nothing later has to
look at it again.

## Main definitions

* `KnotProblem.WellFormed`: The shape of a problem.
* `KnotProblem.Built`: Problems made by construction and setting.

## Theorems

* `length_settle`: Settled bounds are one pair for each knot.
* `settle_pairs`, `settle_of_length`: Pairs of ends settle to themselves.
* `make_eq`, `make_checked`: When there is a new problem, and which one.
* `make_wellFormed`: A new problem has the shape.
* `knotWeights_ok_iff`, `withReference_ok_iff`: Which references are taken.
* `withReference_eq`, `withSlope_eq`: What references change.
* `Built.wellFormed`: Setting keeps the shape.
* `Built.length_reference`: A reference is as long as there are knots.
-/

namespace JerkPlan

/-- Settled bounds are one pair for each knot. -/
theorem length_settle {R : Type} {n : Nat} {spec : BoundsSpec R} {bounds : List (R × R)}
    (h : spec.settle n = .ok bounds) : bounds.length = n := by
  rcases spec with ends | rows
  · match ends, h with
    | [l, u], h =>
        rw [BoundsSpec.settle, Except.ok.injEq] at h
        rw [← h, List.length_replicate]
  · match rows, h with
    | r :: rs, h =>
        rw [BoundsSpec.settle] at h
        split at h
        · next hsize =>
            rw [Except.ok.injEq] at h
            rw [← h]
            exact hsize.2
        · exact absurd h (by simp only [reduceCtorEq, not_false_eq_true])

/-- Pairs of ends settle to themselves. -/
theorem settle_pairs {R : Type} {n : Nat} {bs bounds : List (R × R)}
    (h : (BoundsSpec.perKnot (bs.map fun b => [b.1, b.2])).settle n = .ok bounds) :
    bounds = bs := by
  cases bs with
  | nil => exact absurd h (by simp [BoundsSpec.settle])
  | cons b bs =>
      simp only [List.map_cons, BoundsSpec.settle] at h
      split at h
      · rw [Except.ok.injEq] at h
        rw [← h]
        simp [List.filterMap_map]
      · exact absurd h (by simp only [reduceCtorEq, not_false_eq_true])

/-- As many pairs of ends as knots settle. -/
theorem settle_of_length {R : Type} {n : Nat} {bs : List (R × R)} (hn : 0 < n)
    (hlength : bs.length = n) :
    (BoundsSpec.perKnot (bs.map fun b => [b.1, b.2])).settle n = .ok bs := by
  cases bs with
  | nil => exact absurd hlength (by rw [List.length_nil]; omega)
  | cons b bs =>
      simp only [List.map_cons, BoundsSpec.settle]
      rw [if_pos]
      · simp [List.filterMap_map]
      · simpa [List.filterMap_map] using hlength

namespace KnotProblem

variable {R : Type}

/-- Weights are taken as they are if there is one for each knot, and a single one is
    repeated for all of them. -/
theorem knotWeights_ok_iff {knots : Nat} {weights ws : List R} :
    knotWeights knots weights = .ok ws ↔
      ws.length = knots ∧ (ws = weights ∨ ∃ w, weights = [w] ∧ ws = List.replicate knots w) := by
  match weights with
  | [w] =>
      rw [knotWeights, Except.ok.injEq]
      constructor
      · rintro rfl
        exact ⟨List.length_replicate, .inr ⟨w, rfl, rfl⟩⟩
      · rintro ⟨hlength, rfl | ⟨w', hw, rfl⟩⟩
        · -- With one knot both ways come to the same.
          rw [← hlength]
          rfl
        · rw [(List.cons.inj hw).1]
  | [] | _ :: _ :: _ =>
      rw [knotWeights, ite_error_iff, not_not, Except.ok.injEq]
      · constructor
        · rintro ⟨hlength, rfl⟩
          exact ⟨hlength, .inl rfl⟩
        · rintro ⟨hlength, rfl | ⟨w, hw, _⟩⟩
          · exact ⟨hlength, rfl⟩
          · exact absurd hw
              (by simp only [reduceCtorEq, List.cons.injEq, and_false, not_false_eq_true])
      · simp

/-- A reference is taken with a target for each knot and with weights for the knots. -/
theorem withReference_ok_iff {p q : KnotProblem R} {weights targets : List R} :
    p.withReference weights targets = .ok q ↔ targets.length = p.knots ∧
      ∃ ws, knotWeights p.knots weights = .ok ws ∧ q = { p with reference := some (ws, targets) } := by
  rw [withReference, ite_error_iff, not_not]
  refine and_congr_right fun _ => ?_
  rcases knotWeights p.knots weights with e | ws
  · simp only [Except.map, reduceCtorEq, false_and, exists_false]
  · simp only [Except.map, Except.ok.injEq, exists_eq_left', eq_comm]

/-- A reference at every knot changes nothing else. -/
theorem withReference_eq {p q : KnotProblem R} {weights targets : List R}
    (h : p.withReference weights targets = .ok q) :
    ∃ r, q = { p with reference := some r } := by
  rcases withReference_ok_iff.mp h with ⟨_, ws, _, hq⟩
  exact ⟨_, hq⟩

/-- A reference for the first derivative changes nothing else, and only a
    motion takes one. -/
theorem withSlope_eq {p q : KnotProblem R} {weight target : R}
    (h : p.withSlope weight target = .ok q) :
    p.kind = .motion ∧ q = { p with slopeReference := some (weight, target) } := by
  unfold withSlope at h
  split at h
  · next hkind =>
      rw [Except.ok.injEq] at h
      exact ⟨hkind, h.symm⟩
  · exact absurd h (by simp only [reduceCtorEq, not_false_eq_true])

variable [ExactScalar R]

/-- The shape of a problem: two knots or more, a positive step, a value and
    two derivatives to start from, and a pair of bounds of each kind at every
    knot. -/
structure WellFormed (p : KnotProblem R) : Prop where
  two_le_knots : 2 ≤ p.knots
  step_pos : 0 < p.step
  length_start : p.start.length = 3
  length_pBounds : p.pBounds.length = p.knots
  length_vBounds : p.vBounds.length = p.knots
  length_aBounds : p.aBounds.length = p.knots

/-- Problems made by construction and setting, as far as every check on the
    way lets through. -/
inductive Built : KnotProblem R → Prop
  | new (kind : ProblemKind) (knots : Int) (step : R) (start : Motion R) {p : KnotProblem R}
      (h : make kind knots step [start.p, start.v, start.a] = .ok p) : Built p
  | values {p : KnotProblem R} (hp : Built p) (spec : BoundsSpec (Endpoint R))
      {bounds : List (Endpoint R × Endpoint R)} (h : spec.settle p.knots = .ok bounds) :
      Built { p with pBounds := bounds }
  | slopes {p : KnotProblem R} (hp : Built p) (spec : BoundsSpec (Endpoint R))
      {bounds : List (Endpoint R × Endpoint R)} (h : spec.settle p.knots = .ok bounds) :
      Built { p with vBounds := bounds }
  | bends {p : KnotProblem R} (hp : Built p) (spec : BoundsSpec (Endpoint R))
      {bounds : List (Endpoint R × Endpoint R)} (h : spec.settle p.knots = .ok bounds) :
      Built { p with aBounds := bounds }
  | changes {p : KnotProblem R} (hp : Built p) (bounds : Endpoint R × Endpoint R) :
      Built { p with jerkBounds := bounds }
  | weights {p : KnotProblem R} (hp : Built p) (value slope bend change : R) :
      Built { p with pWeight := value, vWeight := slope, aWeight := bend, jerkWeight := change }
  | reference {p : KnotProblem R} (hp : Built p) (weights targets : List R) {q : KnotProblem R}
      (h : p.withReference weights targets = .ok q) : Built q
  | final {p : KnotProblem R} (hp : Built p) (weights targets : Motion R) :
      Built { p with finalReference := some (weights, targets) }
  | slope {p : KnotProblem R} (hp : Built p) (weight target : R) {q : KnotProblem R}
      (h : p.withSlope weight target = .ok q) : Built q

/-- Two knots and a positive step are enough for a new problem. -/
theorem make_eq {kind : ProblemKind} {knots : Int} {step : R} {start : List R}
    (hknots : 2 ≤ knots) (hstep : 0 < step) :
    make kind knots step start = .ok
      ⟨kind, knots.toNat, step, start, List.replicate knots.toNat (.minusInfinity, .plusInfinity),
        List.replicate knots.toNat (.minusInfinity, .plusInfinity),
        List.replicate knots.toNat (.minusInfinity, .plusInfinity), (.minusInfinity, .plusInfinity),
        0, 0, 0, 0, none, none, none⟩ := by
  rw [make, if_neg (by omega), if_neg (not_le.mpr hstep)]

/-- There is no new problem without them. -/
theorem make_checked {kind : ProblemKind} {knots : Int} {step : R} {start : List R}
    {p : KnotProblem R} (h : make kind knots step start = .ok p) : 2 ≤ knots ∧ 0 < step := by
  rcases ite_error_ok h with ⟨hknots, h⟩
  rcases ite_error_ok h with ⟨hstep, _⟩
  exact ⟨by omega, not_le.mp hstep⟩

/-- A new problem has the shape. -/
theorem make_wellFormed {kind : ProblemKind} {knots : Int} {step : R} {start : List R}
    {p : KnotProblem R} (hstart : start.length = 3) (h : make kind knots step start = .ok p) :
    p.WellFormed := by
  rcases make_checked h with ⟨hknots, hstep⟩
  rw [make_eq hknots hstep, Except.ok.injEq] at h
  rw [← h]
  exact
    { two_le_knots := by
        change 2 ≤ knots.toNat
        omega
      step_pos := hstep
      length_start := hstart
      length_pBounds := List.length_replicate
      length_vBounds := List.length_replicate
      length_aBounds := List.length_replicate }

/-- Setting keeps the shape, by induction over the construction. -/
theorem Built.wellFormed {p : KnotProblem R} (h : p.Built) : p.WellFormed := by
  induction h with
  | new _ _ _ _ h => exact make_wellFormed rfl h
  | values _ _ h ih => exact { ih with length_pBounds := length_settle h }
  | slopes _ _ h ih => exact { ih with length_vBounds := length_settle h }
  | bends _ _ h ih => exact { ih with length_aBounds := length_settle h }
  | changes _ _ ih => exact { ih with }
  | weights _ _ _ _ _ ih => exact { ih with }
  | reference _ _ _ h ih =>
      rcases withReference_eq h with ⟨r, rfl⟩
      exact { ih with }
  | final _ _ _ ih => exact { ih with }
  | slope _ _ _ h ih =>
      rw [(withSlope_eq h).2]
      exact { ih with }

/-- There is a weight and a target for each knot where there is a reference at all. -/
theorem Built.length_reference {p : KnotProblem R} (h : p.Built) :
    ∀ r, p.reference = some r → r.1.length = p.knots ∧ r.2.length = p.knots := by
  induction h with
  | new _ _ _ _ h =>
      rcases make_checked h with ⟨hknots, hstep⟩
      rw [make_eq hknots hstep, Except.ok.injEq] at h
      intro r hr
      rw [← h] at hr
      exact absurd hr (by simp only [reduceCtorEq, not_false_eq_true])
  | values _ _ _ ih | slopes _ _ _ ih | bends _ _ _ ih | changes _ _ ih | weights _ _ _ _ _ ih
  | final _ _ _ ih => exact ih
  | reference _ _ _ h _ =>
      rcases withReference_ok_iff.mp h with ⟨htargets, ws, hweights, rfl⟩
      rintro _ ⟨⟩
      exact ⟨(knotWeights_ok_iff.mp hweights).1, htargets⟩
  | slope _ _ _ h ih =>
      rw [(withSlope_eq h).2]
      exact ih

/-- A motion over three knots, half a unit apart, that begins with speed one
    and has something of everything that can be set. -/
def cruise : KnotProblem Rat where
  kind := .motion
  knots := 3
  step := 1 / 2
  start := [0, 1, 0]
  pBounds := [(.finite 0, .finite 10), (.finite 0, .finite 10), (.minusInfinity, .finite 10)]
  vBounds := List.replicate 3 (.finite 0, .plusInfinity)
  aBounds := List.replicate 3 (.finite (-6), .finite 2)
  jerkBounds := (.finite (-4), .finite 2)
  pWeight := 1
  vWeight := 2
  aWeight := 3
  jerkWeight := 4
  reference := some ([5, 5, 5], [0, 1, 1])
  finalReference := some (⟨1, 1, 0⟩, ⟨1, 1, 0⟩)
  slopeReference := some (5, 1)

/-- Going on at speed one. -/
def cruising : KnotProfile Rat := ⟨[0, 1 / 2, 1], [1, 1, 1], [0, 0, 0]⟩

theorem cruise_built : cruise.Built := by
  have hnew := Built.new .motion 3 (1 / 2 : Rat) ⟨0, 1, 0⟩ (make_eq (by omega) (by norm_num))
  have hvalues := hnew.values (.perKnot
    [[.finite 0, .finite 10], [.finite 0, .finite 10], [.minusInfinity, .finite 10]]) rfl
  have hslopes := hvalues.slopes (.uniform [.finite 0, .plusInfinity]) rfl
  have hbends := hslopes.bends (.uniform [.finite (-6), .finite 2]) rfl
  have hweights := (hbends.changes (.finite (-4), .finite 2)).weights 1 2 3 4
  have hreference := hweights.reference [5] [0, 1, 1] rfl
  exact (hreference.final ⟨1, 1, 0⟩ ⟨1, 1, 0⟩).slope 5 1 rfl

end KnotProblem

end JerkPlan
