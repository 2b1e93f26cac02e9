import Mathlib.Algebra.BigOperators.Intervals
import Mathlib.Algebra.BigOperators.Ring.Finset
import JerkPlan.Proofs.KnotRows

/-!
# Costs over knots

The program of a problem has the cost that its weights describe.

A kernel and an offset are all a solver is told. They are put together apart
from each other, and what a reference adds to one of them has its partner in
the other: the square of a deviation needs a square in the kernel, a product
in the offset, and leaves a constant that neither of them holds.
`KnotProblem.cost` is the cost as one would write it down, a sum of weighted
squares, `KnotProblem.remainder` is that constant, and
`program_objective_eq` says that the program is worth the difference.

The kernel is diagonal except for the second derivatives, whose changes are
weighed as well. There every row has its neighbours, and `sum_neighbours`
collects them into the squares of the changes. It is stated with two points, as
`bilinear_eq` is, since a kernel is symmetric for the same reason.

## Main definitions

* `pairing`, `bilinear`: The values of a linear form and of a bilinear one.
* `QuadraticProgram.objective`: Half the quadratic form plus the linear one.
* `KnotProblem.cost`: The weighted squares of a problem.
* `KnotProblem.remainder`: What does not depend on the variables.

## Theorems

* `pairing_append`, `pairing_map_range`: Linear forms, block by block.
* `sum_neighbours`: Products of neighbours are products of changes.
* `sum_withFinal`, `sum_reference`, `sum_slopeReference`: What each reference
  adds to a block.
* `changeWeight_eq`: The weight of a change exists.
* `rowValue_aRow`: The rows of the second derivatives.
* `bilinear_eq`, `pairing_offset`, `objective_eq`: Kernel, offset and objective, block
  by block.
* `program_objective_eq`: The objective is the cost without its remainder.
-/

namespace JerkPlan

open Finset

variable {R : Type} [ExactScalar R]

/-- The value at a point of the linear form with given coefficients, the first
    of which belongs to variable `j`. -/
def pairing (z : Nat → R) (j : Nat) (xs : List R) : R :=
  ((xs.zipIdx j).map fun (x, i) => x * z i).sum

theorem pairing_append (z : Nat → R) (j : Nat) (xs ys : List R) :
    pairing z j (xs ++ ys) = pairing z j xs + pairing z (j + xs.length) ys := by
  simp only [pairing, List.zipIdx_append, List.map_append, List.sum_append]

theorem pairing_map_range (z : Nat → R) (j n : Nat) (f : Nat → R) :
    pairing z j ((List.range n).map f) = ∑ i ∈ range n, f i * z (j + i) := by
  induction n with
  | zero => rfl
  | succ n ih =>
      rw [List.range_succ, List.map_append, pairing_append, ih, sum_range_succ, List.length_map,
        List.length_range]
      simp only [pairing, List.map_cons, List.map_nil, List.zipIdx_cons, List.zipIdx_nil,
        List.sum_cons, List.sum_nil, add_zero]

/-- The bilinear form of a kernel, given by its rows. -/
def bilinear (rows : List (List (Nat × R))) (y z : Nat → R) : R :=
  pairing y 0 (rows.map (rowValue z))

/-- The objective of a program: half the quadratic form of its kernel, plus
    the linear form of its offset. -/
def QuadraticProgram.objective (q : QuadraticProgram R) (z : Nat → R) : R :=
  1 / 2 * pairing z 0 (q.kernel.map (rowValue z)) + pairing z 0 q.offset

/-- The values of one sequence times the differences of another to its
    neighbours, summed over all values, are the products of the changes of both. -/
theorem sum_neighbours (m : Nat) (b a : Nat → R) :
    ∑ i ∈ range (m + 1), ((if 0 < i then b i * (a i - a (i - 1)) else 0) +
      (if i + 1 < m + 1 then b i * (a i - a (i + 1)) else 0)) =
        ∑ i ∈ range m, (b (i + 1) - b i) * (a (i + 1) - a i) := by
  have hbefore : ∑ i ∈ range (m + 1), (if 0 < i then b i * (a i - a (i - 1)) else 0) =
      ∑ i ∈ range m, b (i + 1) * (a (i + 1) - a i) := by
    rw [sum_range_succ']
    simp only [Nat.succ_pos, if_true, Nat.lt_irrefl, if_false, add_zero, Nat.add_sub_cancel]
  have hafter : ∑ i ∈ range (m + 1), (if i + 1 < m + 1 then b i * (a i - a (i + 1)) else 0) =
      ∑ i ∈ range m, b i * (a i - a (i + 1)) := by
    rw [sum_range_succ, if_neg (by omega), add_zero]
    refine sum_congr rfl fun i hi => ?_
    rw [if_pos (by have := mem_range.mp hi; omega)]
  -- Each change is met twice, once from either side.
  rw [sum_add_distrib, hbefore, hafter, ← sum_add_distrib]
  refine sum_congr rfl fun i _ => ?_
  ring

namespace KnotProblem

/-- The weights of the last knot's target, zero without one. -/
def finalWeights (p : KnotProblem R) : Motion R := p.finalReference.elim ⟨0, 0, 0⟩ (·.1)

/-- The last knot's target, zero without one. -/
def finalTargets (p : KnotProblem R) : Motion R := p.finalReference.elim ⟨0, 0, 0⟩ (·.2)

/-- The weighted squares of a problem: values and derivatives at all knots,
    changes of the second derivative per unit, and the distances to each
    reference that is set. -/
def cost (p : KnotProblem R) (z : Nat → R) : R :=
  let s := stateAt p.knots z
  let last := s (p.knots - 1)
  ∑ i ∈ range p.knots,
      (p.pWeight * (s i).p ^ 2 + p.vWeight * (s i).v ^ 2 + p.aWeight * (s i).a ^ 2) +
    p.jerkWeight * ∑ i ∈ range (p.knots - 1), (((s (i + 1)).a - (s i).a) / p.step) ^ 2 +
    p.reference.elim 0 (fun r =>
      ∑ i ∈ range p.knots, (r.1[i]?).getD 0 * ((s i).p - (r.2[i]?).getD 0) ^ 2) +
    p.slopeReference.elim 0 (fun r => r.1 * ∑ i ∈ range p.knots, ((s i).v - r.2) ^ 2) +
    p.finalReference.elim 0 (fun r =>
      r.1.p * (last.p - r.2.p) ^ 2 + r.1.v * (last.v - r.2.v) ^ 2 + r.1.a * (last.a - r.2.a) ^ 2)

/-- The part of the cost that does not depend on the variables. -/
def remainder (p : KnotProblem R) : R :=
  p.reference.elim 0 (fun r =>
      ∑ i ∈ range p.knots, (r.1[i]?).getD 0 * ((r.2[i]?).getD 0) ^ 2) +
    p.slopeReference.elim 0 (fun r => (p.knots : R) * r.1 * r.2 ^ 2) +
    p.finalReference.elim 0 (fun r =>
      r.1.p * r.2.p ^ 2 + r.1.v * r.2.v ^ 2 + r.1.a * r.2.a ^ 2)

theorem two_eq : (two : R) = 2 := by
  simp only [two, Nat.cast_ofNat]

theorem withFinal_eq (p : KnotProblem R) (part : Motion R → R) (hpart : part ⟨0, 0, 0⟩ = 0)
    (i : Nat) (w : R) :
    p.withFinal part i w = w + if i + 1 = p.knots then part p.finalWeights else 0 := by
  rcases hfinal : p.finalReference with _ | ⟨weights, targets⟩
  · simp only [withFinal, finalWeights, hfinal, Option.elim_none, hpart, ite_self, add_zero]
  · simp only [withFinal, finalWeights, hfinal, Option.elim_some]
    by_cases hi : i + 1 = p.knots
    · rw [if_pos hi, if_pos hi]
    · rw [if_neg hi, if_neg hi, add_zero]

theorem withFinalPull_eq (p : KnotProblem R) (part : Motion R → R) (hpart : part ⟨0, 0, 0⟩ = 0)
    (i : Nat) (x : R) :
    p.withFinalPull part i x =
      x + if i + 1 = p.knots then -2 * part p.finalWeights * part p.finalTargets else 0 := by
  rcases hfinal : p.finalReference with _ | ⟨weights, targets⟩
  · simp only [withFinalPull, finalWeights, hfinal, Option.elim_none, hpart, mul_zero, zero_mul,
      ite_self, add_zero]
  · simp only [withFinalPull, finalWeights, finalTargets, hfinal, Option.elim_some, two_eq]
    by_cases hi : i + 1 = p.knots
    · rw [if_pos hi, if_pos hi]
    · rw [if_neg hi, if_neg hi, add_zero]

/-- What a block of the program is worth: a diagonal of weights `u` and pulls
    `g`, both changed at the last knot for its target. -/
theorem sum_withFinal {p : KnotProblem R} (hn : 0 < p.knots) (part : Motion R → R)
    (hpart : part ⟨0, 0, 0⟩ = 0) (u g y : Nat → R) :
    ∑ i ∈ range p.knots, (p.withFinal part i (u i) * y i ^ 2 +
        p.withFinalPull part i (g i) * y i) =
      ∑ i ∈ range p.knots, (u i * y i ^ 2 + g i * y i) +
        (part p.finalWeights * (y (p.knots - 1) - part p.finalTargets) ^ 2 -
          part p.finalWeights * part p.finalTargets ^ 2) := by
  have hterm (i : Nat) : p.withFinal part i (u i) * y i ^ 2 + p.withFinalPull part i (g i) * y i =
      (u i * y i ^ 2 + g i * y i) + if i = p.knots - 1 then part p.finalWeights * y i ^ 2 -
        2 * part p.finalWeights * part p.finalTargets * y i else 0 := by
    rw [withFinal_eq p part hpart, withFinalPull_eq p part hpart]
    -- Only the last knot has a target, and there the square is completed.
    by_cases hi : i = p.knots - 1
    · rw [if_pos (by omega), if_pos (by omega), if_pos hi]
      ring
    · rw [if_neg (by omega), if_neg (by omega), if_neg hi]
      ring
  rw [sum_congr rfl fun i _ => hterm i, sum_add_distrib, sum_ite_eq' (range p.knots),
    if_pos (mem_range.mpr (by omega))]
  ring

/-- What a reference at every knot adds to a block of weight `w`. -/
theorem sum_reference (reference : Option (List R × List R)) (n : Nat) (w : R) (y : Nat → R) :
    ∑ i ∈ range n, ((w + reference.elim 0 fun r => (r.1[i]?).getD 0) * y i ^ 2 +
        (reference.elim 0 fun r => -2 * (r.1[i]?).getD 0 * (r.2[i]?).getD 0) * y i) =
      ∑ i ∈ range n, w * y i ^ 2 +
        (reference.elim 0 fun r =>
          ∑ i ∈ range n, (r.1[i]?).getD 0 * (y i - (r.2[i]?).getD 0) ^ 2) -
        reference.elim 0 fun r => ∑ i ∈ range n, (r.1[i]?).getD 0 * ((r.2[i]?).getD 0) ^ 2 := by
  rcases reference with _ | r
  · simp only [Option.elim_none, add_zero, zero_mul, sub_zero]
  · simp only [Option.elim_some]
    rw [← sum_add_distrib, ← sum_sub_distrib]
    exact sum_congr rfl fun i _ => by ring

/-- What a reference for the first derivative adds to a block of weight `w`. -/
theorem sum_slopeReference (reference : Option (R × R)) (n : Nat) (w : R) (y : Nat → R) :
    ∑ i ∈ range n, ((reference.elim w fun r => w + r.1) * y i ^ 2 +
        (reference.elim 0 fun r => -2 * r.1 * r.2) * y i) =
      ∑ i ∈ range n, w * y i ^ 2 +
        (reference.elim 0 fun r => r.1 * ∑ i ∈ range n, (y i - r.2) ^ 2) -
        reference.elim 0 fun r => (n : R) * r.1 * r.2 ^ 2 := by
  rcases reference with _ | r
  · simp only [Option.elim_none, add_zero, zero_mul, sub_zero]
  · have hconstant : (n : R) * r.1 * r.2 ^ 2 = ∑ _i ∈ range n, r.1 * r.2 ^ 2 := by
      rw [sum_const, card_range, nsmul_eq_mul, mul_assoc]
    simp only [Option.elim_some]
    rw [hconstant, mul_sum, ← sum_add_distrib, ← sum_sub_distrib]
    exact sum_congr rfl fun i _ => by ring

/-- Exact arithmetic has a weight for the changes of every problem. -/
theorem changeWeight_eq {p : KnotProblem R} (hstep : 0 < p.step) :
    p.changeWeight = .ok (p.jerkWeight / (p.step * p.step)) := by
  have hsquare : p.step * p.step ≠ 0 := mul_ne_zero hstep.ne' hstep.ne'
  simp only [changeWeight, same_eq_false hsquare, isFinite_eq_true, Bool.not_true, Bool.and_false,
    Bool.false_eq_true, if_false]

/-- The row of a knot's second derivative: its own weight, and its differences
    to its neighbours. -/
theorem rowValue_aRow {p : KnotProblem R} {i : Nat} (hn : 2 ≤ p.knots) (hi : i < p.knots)
    (z : Nat → R) (w : R) :
    let a (i : Nat) := (stateAt p.knots z i).a
    rowValue z (p.aRow w i) = 2 * p.aSquare i * a i +
      2 * w * ((if 0 < i then a i - a (i - 1) else 0) +
        (if i + 1 < p.knots then a i - a (i + 1) else 0)) := by
  simp only [aRow, rowValue_append, rowValue_cons, rowValue_nil, two_eq, stateAt]
  by_cases hfirst : i = 0
  · -- the first knot has a neighbour after it only
    subst hfirst
    rw [if_neg (by omega), if_pos (.inl rfl), if_pos (by omega), if_neg (by omega),
      if_pos (by omega), rowValue_nil, rowValue_cons, rowValue_nil, Nat.add_zero, Nat.zero_add]
    ring
  have hpos : 0 < i := by omega
  have hbefore : 2 * p.knots + i - 1 = 2 * p.knots + (i - 1) := by omega
  by_cases hlast : i + 1 = p.knots
  · -- the last knot has a neighbour before it only
    rw [if_pos hpos, if_pos (.inr hlast), if_neg (by omega), if_pos hpos, if_neg (by omega),
      rowValue_cons, rowValue_nil, hbefore]
    ring
  · rw [if_pos hpos, if_neg (by omega), if_pos (by omega), if_pos hpos, if_pos (by omega),
      rowValue_cons, rowValue_nil, rowValue_cons, rowValue_nil, hbefore, Nat.add_assoc]
    ring

/-- In exact arithmetic every problem with an objective has a program. -/
theorem program_eq {p : KnotProblem R} (hkind : p.kind ≠ .bare) (hstep : 0 < p.step) :
    p.program = .ok
      ⟨((List.range p.knots).map fun i => nonzero [(i, two * p.pSquare i)]) ++
          ((List.range p.knots).map fun i => nonzero [(p.knots + i, two * p.vSquare i)]) ++
          ((List.range p.knots).map fun i =>
            nonzero (p.aRow (p.jerkWeight / (p.step * p.step)) i)),
        ((List.range p.knots).map fun i => p.withFinalPull (·.p) i
            (p.reference.elim 0 fun r => -two * (r.1[i]?).getD 0 * (r.2[i]?).getD 0)) ++
          ((List.range p.knots).map fun i => p.withFinalPull (·.v) i
            (p.slopeReference.elim 0 fun r => -two * r.1 * r.2)) ++
          ((List.range p.knots).map fun i => p.withFinalPull (·.a) i 0),
        p.constraints⟩ := by
  have hweight := changeWeight_eq hstep
  rcases hp : p.kind with _ | _ | _
  · simp only [program, kernel, offset, hp, hweight]
    rfl
  · simp only [program, kernel, offset, hp, hweight]
    rfl
  · exact absurd hp hkind

/-- The rows of the second derivatives at one point, taken with those of another:
    the products of both, and the products of their changes. -/
theorem sum_aRow {p : KnotProblem R} (hn : 2 ≤ p.knots) (y z : Nat → R) (w : R) :
    let b (i : Nat) := (stateAt p.knots y i).a
    let a (i : Nat) := (stateAt p.knots z i).a
    ∑ i ∈ range p.knots, rowValue z (p.aRow w i) * b i =
      ∑ i ∈ range p.knots, 2 * p.aSquare i * (b i * a i) +
        2 * w * ∑ i ∈ range (p.knots - 1), (b (i + 1) - b i) * (a (i + 1) - a i) := by
  intro b a
  have hm : p.knots = p.knots - 1 + 1 := by omega
  have hneighbours := sum_neighbours (p.knots - 1) b a
  rw [← hm] at hneighbours
  rw [← hneighbours, mul_sum, ← sum_add_distrib]
  refine sum_congr rfl fun i hi => ?_
  rw [rowValue_aRow hn (mem_range.mp hi)]
  simp only [a]
  split_ifs <;> ring

/-- The bilinear form of a kernel, block by block: a diagonal for the values, one
    for the first derivatives, and one for the second derivatives with the
    products of their changes. -/
theorem bilinear_eq {p : KnotProblem R} (hp : p.WellFormed) {q : QuadraticProgram R}
    (hkind : p.kind ≠ .bare) (hq : p.program = .ok q) (y z : Nat → R) :
    let s := stateAt p.knots y
    let s' := stateAt p.knots z
    bilinear q.kernel y z =
      ∑ i ∈ range p.knots, 2 * p.pSquare i * ((s i).p * (s' i).p) +
        ∑ i ∈ range p.knots, 2 * p.vSquare i * ((s i).v * (s' i).v) +
        ∑ i ∈ range p.knots, 2 * p.aSquare i * ((s i).a * (s' i).a) +
        2 * (p.jerkWeight / (p.step * p.step)) * ∑ i ∈ range (p.knots - 1),
          ((s (i + 1)).a - (s i).a) * ((s' (i + 1)).a - (s' i).a) := by
  intro s s'
  have hdiagonal (w : Nat → R) (x x' : Nat → R) : ∑ i ∈ range p.knots, 2 * w i * x' i * x i =
      ∑ i ∈ range p.knots, 2 * w i * (x i * x' i) :=
    sum_congr rfl fun i _ => by ring
  have hbends := sum_aRow hp.two_le_knots y z (p.jerkWeight / (p.step * p.step))
  have hvalues := hdiagonal p.pSquare (fun i => (s i).p) fun i => (s' i).p
  have hslopes := hdiagonal p.vSquare (fun i => (s i).v) fun i => (s' i).v
  rw [program_eq hkind hp.step_pos, Except.ok.injEq] at hq
  rw [← hq, bilinear]
  simp only [List.map_append, List.map_map, pairing_append, List.length_append, List.length_map,
    List.length_range, pairing_map_range, Function.comp, rowValue_nonzero, rowValue_cons,
    rowValue_nil, add_zero, zero_add, ← Nat.two_mul, two_eq]
  simp only [s, s', stateAt] at hbends hvalues hslopes ⊢
  rw [hbends, hvalues, hslopes]
  ring

/-- The linear form of an offset, block by block. -/
theorem pairing_offset {p : KnotProblem R} (hp : p.WellFormed) {q : QuadraticProgram R}
    (hkind : p.kind ≠ .bare) (hq : p.program = .ok q) (z : Nat → R) :
    let s := stateAt p.knots z
    pairing z 0 q.offset =
      ∑ i ∈ range p.knots, p.withFinalPull (·.p) i
          (p.reference.elim 0 fun r => -2 * (r.1[i]?).getD 0 * (r.2[i]?).getD 0) * (s i).p +
        ∑ i ∈ range p.knots, p.withFinalPull (·.v) i
          (p.slopeReference.elim 0 fun r => -2 * r.1 * r.2) * (s i).v +
        ∑ i ∈ range p.knots, p.withFinalPull (·.a) i 0 * (s i).a := by
  intro s
  rw [program_eq hkind hp.step_pos, Except.ok.injEq] at hq
  rw [← hq]
  simp only [pairing_append, List.length_append, List.length_map, List.length_range,
    pairing_map_range, zero_add, ← Nat.two_mul, two_eq, s, stateAt]

/-- The objective of a program, block by block: a diagonal for the values, one
    for the first derivatives, and one for the second derivatives with the
    squares of their changes. -/
theorem objective_eq {p : KnotProblem R} (hp : p.WellFormed) {q : QuadraticProgram R}
    (hkind : p.kind ≠ .bare) (hq : p.program = .ok q) (z : Nat → R) :
    let s := stateAt p.knots z
    q.objective z =
      ∑ i ∈ range p.knots, (p.pSquare i * (s i).p ^ 2 + p.withFinalPull (·.p) i
          (p.reference.elim 0 fun r => -2 * (r.1[i]?).getD 0 * (r.2[i]?).getD 0) * (s i).p) +
        ∑ i ∈ range p.knots, (p.vSquare i * (s i).v ^ 2 + p.withFinalPull (·.v) i
          (p.slopeReference.elim 0 fun r => -2 * r.1 * r.2) * (s i).v) +
        ∑ i ∈ range p.knots, (p.aSquare i * (s i).a ^ 2 + p.withFinalPull (·.a) i 0 * (s i).a) +
        p.jerkWeight / (p.step * p.step) *
          ∑ i ∈ range (p.knots - 1), ((s (i + 1)).a - (s i).a) ^ 2 := by
  intro s
  -- The kernel holds every weight twice, and half of its form is taken.
  have hhalf (w x : Nat → R) : 1 / 2 * ∑ i ∈ range p.knots, 2 * w i * (x i * x i) =
      ∑ i ∈ range p.knots, w i * x i ^ 2 := by
    rw [mul_sum]
    exact sum_congr rfl fun i _ => by ring
  have hobjective : q.objective z = 1 / 2 * bilinear q.kernel z z + pairing z 0 q.offset := rfl
  rw [hobjective, bilinear_eq hp hkind hq, pairing_offset hp hkind hq, mul_add, mul_add, mul_add,
    hhalf, hhalf, hhalf]
  simp only [sum_add_distrib, pow_two, s]
  ring

/-- Only a motion is ever drawn to a first derivative. -/
theorem Built.slopeReference_eq_none {p : KnotProblem R} (h : p.Built) (hkind : p.kind ≠ .motion) :
    p.slopeReference = none := by
  induction h with
  | new _ _ _ _ h =>
      rcases make_checked h with ⟨hknots, hstep⟩
      rw [make_eq hknots hstep, Except.ok.injEq] at h
      rw [← h]
  | values _ _ _ ih => exact ih hkind
  | slopes _ _ _ ih => exact ih hkind
  | bends _ _ _ ih => exact ih hkind
  | changes _ _ ih => exact ih hkind
  | weights _ _ _ _ _ ih => exact ih hkind
  | reference _ _ _ h ih =>
      rcases withReference_eq h with ⟨r, rfl⟩
      exact ih hkind
  | final _ _ _ ih => exact ih hkind
  | slope _ _ _ h _ =>
      rcases withSlope_eq h with ⟨hmotion, rfl⟩
      exact absurd hmotion hkind

/-- A problem of either kind that has an objective has a program, and the
    program is worth the cost without its remainder at every point. Only a
    motion has a part for the first derivative's reference. -/
theorem program_objective_eq {p : KnotProblem R} (hp : p.Built) (hkind : p.kind ≠ .bare) :
    (p.kind = .fit → p.slopeReference = none) ∧
      ∃ q, p.program = .ok q ∧ ∀ z, q.objective z = p.cost z - p.remainder := by
  have hshape := hp.wellFormed
  have hn : 0 < p.knots := by have := hshape.two_le_knots; omega
  refine ⟨fun hfit => hp.slopeReference_eq_none ?_, _, program_eq hkind hshape.step_pos,
    fun z => ?_⟩
  · rw [hfit]
    exact ProblemKind.noConfusion
  rw [objective_eq hshape hkind (program_eq hkind hshape.step_pos)]
  simp only [pSquare, vSquare, aSquare]
  rw [sum_withFinal hn (·.p) rfl, sum_withFinal hn (·.v) rfl, sum_withFinal hn (·.a) rfl]
  have hchanges : p.jerkWeight / (p.step * p.step) *
      ∑ i ∈ range (p.knots - 1), ((stateAt p.knots z (i + 1)).a - (stateAt p.knots z i).a) ^ 2 =
      p.jerkWeight * ∑ i ∈ range (p.knots - 1),
        (((stateAt p.knots z (i + 1)).a - (stateAt p.knots z i).a) / p.step) ^ 2 := by
    rw [mul_sum, mul_sum]
    exact sum_congr rfl fun i _ => by ring
  -- What is left over of each reference is its part of the remainder.
  rw [sum_reference, sum_slopeReference, hchanges, cost, remainder]
  simp only [sum_add_distrib, zero_mul, add_zero, finalWeights, finalTargets]
  rcases p.finalReference with _ | ⟨weights, targets⟩
  · simp only [Option.elim_none]
    ring
  · simp only [Option.elim_some]
    ring

/-- All terms of the cost are present while cruising, and its program is worth
    the difference. -/
theorem program_objective_cruise :
    cruise.cost cruising.point = 17 / 2 ∧ cruise.Built ∧ cruise.kind ≠ .bare ∧
      ∃ q, cruise.program = .ok q ∧
        ∀ z, q.objective z = cruise.cost z - cruise.remainder := by
  have hkind : cruise.kind ≠ .bare := ProblemKind.noConfusion
  have hcost : cruise.cost cruising.point = 17 / 2 := by
    simp only [cost, cruise, cruising, stateAt, KnotProfile.point, sum_range_succ,
      sum_range_zero, Option.elim_some]
    norm_num
  exact ⟨hcost, cruise_built, hkind, (program_objective_eq cruise_built hkind).2⟩

end KnotProblem

end JerkPlan
