import JerkPlan.Proofs.Midway

/-!
# Convex kernels

The kernel of a problem is symmetric, and without negative weights it is convex.

Both are read off one formula. `KnotProblem.bilinear_eq` takes the rows of a kernel at
one point with the coordinates of another, and what comes out are products in which the
two points may be exchanged. With one point taken twice they are squares. The rows of
the second derivatives overlap, so this cannot be seen row by row: only their sum
collects the neighbours into changes.

A solver is given the part of a kernel on and above the diagonal, and takes what is
missing from there. With a symmetric kernel that is what was left out. The entries of
sparse rows are their values at the unit points, where an entry that is not stored is
zero.

## Main definitions

* `coefficient`: An entry of a kernel given by sparse rows.
* `upperTriangle`: The rows from the diagonal on.

## Theorems

* `pairing_single`, `bilinear_single`: Entries are values of the bilinear form.
* `coefficient_upperTriangle`: The entries that are left.
* `KnotProblem.bilinear_comm`, `KnotProblem.bilinear_nonneg`: Symmetry and convexity.
* `KnotProblem.kernel_convex`: Both for every problem that can be set up.
-/

namespace JerkPlan

open Finset

variable {R : Type} [ExactScalar R]

/-! Entries -/

/-- An entry of a kernel given by its rows: what the row is worth at the point that is
    one in the column and zero elsewhere. Rows that are not there have no entries. -/
def coefficient (rows : List (List (Nat × R))) (i j : Nat) : R :=
  (rows[i]?).elim 0 (rowValue (Pi.single j 1))

/-- The rows of a kernel from the diagonal on. -/
def upperTriangle (rows : List (List (Nat × R))) : List (List (Nat × R)) :=
  rows.mapIdx fun i row => row.filter fun e => decide (i ≤ e.1)

/-- A linear form at a unit point is one of its coefficients. -/
theorem pairing_single (i : Nat) (xs : List R) : pairing (Pi.single i 1) 0 xs = (xs[i]?).getD 0 := by
  induction xs using List.reverseRecOn with
  | nil => rfl
  | append_singleton xs x ih =>
      have hlast : pairing (Pi.single i 1) xs.length [x] = if xs.length = i then x else 0 := by
        simp only [pairing, List.zipIdx_singleton, List.map_singleton, List.sum_singleton,
          Pi.single_apply, mul_ite, mul_one, mul_zero]
      rw [pairing_append, ih, Nat.zero_add, hlast]
      rcases Nat.lt_trichotomy i xs.length with hlt | rfl | hgt
      · rw [if_neg hlt.ne', add_zero, List.getElem?_append_left hlt]
      · rw [if_pos rfl, List.getElem?_concat_length, List.getElem?_eq_none (Nat.le_refl _),
          Option.getD_none, Option.getD_some, zero_add]
      · rw [if_neg hgt.ne, add_zero, List.getElem?_eq_none hgt.le, List.getElem?_eq_none]
        rw [List.length_append, List.length_singleton]
        exact hgt

/-- A bilinear form at two unit points is an entry. -/
theorem bilinear_single (rows : List (List (Nat × R))) (i j : Nat) :
    bilinear rows (Pi.single i 1) (Pi.single j 1) = coefficient rows i j := by
  rw [bilinear, pairing_single, List.getElem?_map, coefficient]
  rcases rows[i]? with _ | row
  · rfl
  · rfl

/-- On and above the diagonal the upper triangle has the same entries. -/
theorem coefficient_upperTriangle (rows : List (List (Nat × R))) {i j : Nat} (h : i ≤ j) :
    coefficient (upperTriangle rows) i j = coefficient rows i j := by
  rw [coefficient, coefficient, upperTriangle, List.getElem?_mapIdx]
  rcases rows[i]? with _ | row
  · rfl
  · -- What is left out of the row belongs to columns before the diagonal.
    refine rowValue_filter fun e _ hbefore => ?_
    have hcolumn : e.1 ≠ j := by
      have hlt := of_decide_eq_false hbefore
      omega
    rw [Pi.single_eq_of_ne hcolumn, mul_zero]

/-! Kernels of problems -/

namespace KnotProblem

variable {p : KnotProblem R} {q : QuadraticProgram R}

/-- The two points of a kernel may be exchanged. -/
theorem bilinear_comm (hp : p.WellFormed) (hkind : p.kind ≠ .bare) (hq : p.program = .ok q)
    (y z : Nat → R) : bilinear q.kernel y z = bilinear q.kernel z y := by
  have hproducts (n : Nat) (w b a : Nat → R) :
      ∑ i ∈ range n, w i * (b i * a i) = ∑ i ∈ range n, w i * (a i * b i) :=
    sum_congr rfl fun i _ => by rw [mul_comm (b i)]
  rw [bilinear_eq hp hkind hq, bilinear_eq hp hkind hq]
  refine congrArg₂ (· + ·) (congrArg₂ (· + ·) (congrArg₂ (· + ·) ?_ ?_) ?_) ?_
  · exact hproducts _ _ _ _
  · exact hproducts _ _ _ _
  · exact hproducts _ _ _ _
  · exact congrArg _ (sum_congr rfl fun i _ => mul_comm _ _)

/-- The quadratic form of a kernel without negative weights is a sum of squares. -/
theorem bilinear_nonneg (hp : p.WellFormed) (hkind : p.kind ≠ .bare) (hweighted : p.Weighted)
    (hq : p.program = .ok q) (z : Nat → R) : 0 ≤ bilinear q.kernel z z := by
  have hblock (n : Nat) {w : Nat → R} (hw : ∀ i, 0 ≤ w i) (x : Nat → R) :
      0 ≤ ∑ i ∈ range n, 2 * w i * (x i * x i) :=
    sum_nonneg fun i _ => mul_nonneg (mul_nonneg zero_le_two (hw i)) (mul_self_nonneg _)
  have hstep : 0 < p.step * p.step := mul_pos hp.step_pos hp.step_pos
  have hchange : 0 ≤ 2 * (p.jerkWeight / (p.step * p.step)) :=
    mul_nonneg zero_le_two (div_nonneg hweighted.changes hstep.le)
  rw [bilinear_eq hp hkind hq]
  refine add_nonneg (add_nonneg (add_nonneg ?_ ?_) ?_) ?_
  · exact hblock _ (fun i => (hweighted.squares_nonneg i).1) _
  · exact hblock _ (fun i => (hweighted.squares_nonneg i).2.1) _
  · exact hblock _ (fun i => (hweighted.squares_nonneg i).2.2) _
  · exact mul_nonneg hchange (sum_nonneg fun i _ => mul_self_nonneg _)

/-- The kernel of a problem with an objective has a row for each variable and is
    symmetric, so that all of its entries are found in its upper triangle, and it is
    convex when no weight is negative, whatever the references are. -/
theorem kernel_convex (hp : p.Built) (hkind : p.kind ≠ .bare) (hweighted : p.Weighted) :
    ∃ q, p.program = .ok q ∧ q.kernel.length = 3 * p.knots ∧
      (∀ i j, coefficient q.kernel i j = coefficient q.kernel j i) ∧
      (∀ i j, coefficient q.kernel i j =
        coefficient (upperTriangle q.kernel) (min i j) (max i j)) ∧
      ∀ z, 0 ≤ bilinear q.kernel z z := by
  have hshape := hp.wellFormed
  have hprogram := program_eq hkind hshape.step_pos
  have hcomm := bilinear_comm hshape hkind hprogram
  have hnonneg := bilinear_nonneg hshape hkind hweighted hprogram
  refine ⟨_, hprogram, ?_, fun i j => ?_, fun i j => ?_, hnonneg⟩
  · simp only [List.length_append, List.length_map, List.length_range]
    omega
  · rw [← bilinear_single, ← bilinear_single, hcomm]
  · rw [coefficient_upperTriangle _ (min_le_max)]
    rcases Nat.le_total i j with h | h
    · rw [Nat.min_eq_left h, Nat.max_eq_right h]
    · rw [Nat.min_eq_right h, Nat.max_eq_left h, ← bilinear_single, ← bilinear_single, hcomm]

/-- The kernel of `cruise` weighs the changes between its three second derivatives, which
    are the variables six to eight, four entries to a change. -/
theorem kernel_convex_cruise : cruise.Built ∧ cruise.kind ≠ .bare ∧ cruise.Weighted ∧
    ∃ q, cruise.program = .ok q ∧ q.kernel.length = 9 ∧
      [(6, 6), (6, 7), (7, 6), (7, 7), (7, 8), (8, 8)].map
        (fun (i, j) => coefficient q.kernel i j) = [38, -32, -32, 70, -32, 38] ∧
      (∀ i j, coefficient q.kernel i j = coefficient q.kernel j i) ∧
      ∀ z, 0 ≤ bilinear q.kernel z z := by
  have hkind : cruise.kind ≠ .bare := ProblemKind.noConfusion
  have hweighted : cruise.Weighted := by
    refine ⟨by decide +kernel, by decide +kernel, by decide +kernel, by decide +kernel,
      fun r hr => ?_, fun r hr => ?_, fun r hr => ?_⟩
    · rw [← Option.some.inj hr]
      decide +kernel
    · rw [← Option.some.inj hr]
      decide +kernel
    · rw [← Option.some.inj hr]
      decide +kernel
  rcases kernel_convex cruise_built hkind hweighted with ⟨q, hq, hlength, hcomm, _, hnonneg⟩
  have hentries : (cruise.program.toOption.map fun q =>
      [(6, 6), (6, 7), (7, 6), (7, 7), (7, 8), (8, 8)].map
        (fun (i, j) => coefficient q.kernel i j)) = some [38, -32, -32, 70, -32, 38] := by
    decide +kernel
  rw [hq] at hentries
  exact ⟨cruise_built, hkind, hweighted, q, hq, hlength, Option.some.inj hentries, hcomm, hnonneg⟩

end KnotProblem

end JerkPlan
