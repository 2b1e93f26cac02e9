import JerkPlan.Proofs.Exact
import JerkPlan.Lookup

/-!
# Halving search

What the search for the first failing index finds.

A test need not be monotone for the search to have an answer, but then the
answer says little more than that it is in range, and that the test passes just
before it and fails just there. `search_between` is the induction on the fuel,
for which the length of a list is always enough. In a table in order the keys
below a value come first, so there the answer is how many of them there are. Entries in
order compare as their places do, `rising_getElem?`, also where no search is made.

## Theorems

* `search_le`, `lowerIndex_le`: The search stays in its range.
* `search_between`, `searchList_between`, `lowerIndex_between`: What the search finds
  for any test.
* `of_getElem?_concat`, `rising_getElem?`, `rising_first_le`, `rising_le_last`: Entries of a
  list, and of one in order.
* `lowerIndex_lt_iff`: In a table in order, the index tells which keys are below.
-/

namespace JerkPlan

/-- Whatever the test, the search stays in its range. -/
theorem search_le (test : Nat → Bool) (fuel : Nat) :
    ∀ lo hi, lo ≤ hi → search test fuel lo hi ≤ hi := by
  induction fuel with
  | zero => exact fun lo hi h => h
  | succ fuel ih =>
      intro lo hi h
      rw [search]
      by_cases hrange : lo < hi
      · rw [if_pos hrange]
        simp only
        split
        · exact ih _ _ (by omega)
        · exact (ih _ _ (by omega)).trans (by omega)
      · rw [if_neg hrange]
        exact h

theorem lowerIndex_le {R : Type} [Scalar R] (keys : List R) (x : R) :
    lowerIndex keys x ≤ keys.length :=
  search_le _ _ _ _ (Nat.zero_le _)

/-- Whatever the test, it passes just before the index that is found and fails
    just there, unless the range begins or ends with the index. -/
theorem search_between (test : Nat → Bool) (fuel : Nat) :
    ∀ lo hi, lo ≤ hi → hi - lo ≤ fuel → lo ≤ search test fuel lo hi ∧
      (lo < search test fuel lo hi → test (search test fuel lo hi - 1) = true) ∧
        (search test fuel lo hi < hi → test (search test fuel lo hi) = false) := by
  induction fuel with
  | zero =>
      intro lo hi hrange hfuel
      rw [search]
      exact ⟨Nat.le_refl lo, fun h => absurd h (Nat.lt_irrefl lo), fun h => absurd h (by omega)⟩
  | succ fuel ih =>
      intro lo hi hrange hfuel
      rw [search]
      by_cases hopen : lo < hi
      · rw [if_pos hopen]
        simp only
        by_cases hmid : test ((lo + hi) / 2) = true
        · -- Whatever is found in the upper half comes after the middle.
          rw [if_pos hmid]
          rcases ih ((lo + hi) / 2 + 1) hi (by omega) (by omega) with ⟨hle, hpass, hfail⟩
          refine ⟨by omega, fun _ => ?_, hfail⟩
          rcases Nat.eq_or_lt_of_le hle with heq | hlt
          · rw [← heq, Nat.add_sub_cancel]
            exact hmid
          · exact hpass hlt
        · rw [if_neg hmid]
          rcases ih lo ((lo + hi) / 2) (by omega) (by omega) with ⟨hle, hpass, hfail⟩
          refine ⟨hle, hpass, fun _ => ?_⟩
          have hbelow := search_le test fuel lo ((lo + hi) / 2) (by omega)
          rcases Nat.eq_or_lt_of_le hbelow with heq | hlt
          · rw [heq]
            exact Bool.eq_false_iff.mpr hmid
          · exact hfail hlt
      · rw [if_neg hopen]
        exact ⟨Nat.le_refl lo, fun h => absurd h (Nat.lt_irrefl lo), fun h => absurd h hopen⟩

/-- Whatever the test, the entry before the index that is found passes it, and the entry
    at the index fails it. -/
theorem searchList_between {α : Type} (test : α → Bool) (xs : List α) :
    (∀ y, 0 < searchList test xs → xs[searchList test xs - 1]? = some y → test y = true) ∧
      ∀ y, xs[searchList test xs]? = some y → test y = false := by
  rcases search_between (fun i => (xs[i]?).any test) xs.length 0 xs.length (Nat.zero_le _)
    (Nat.le_refl _) with ⟨_, hpass, hfail⟩
  constructor
  · intro y hpos hy
    have hbefore := hpass hpos
    rw [← searchList, hy, Option.any_some] at hbefore
    exact hbefore
  · intro y hy
    have hthere := hfail (List.getElem?_eq_some_iff.mp hy).1
    rw [← searchList, hy, Option.any_some] at hthere
    exact hthere

/-- The key before the index that is found is below the value, and the key at
    the index is not, in a table of any order. -/
theorem lowerIndex_between {R : Type} [Scalar R] (keys : List R) (x : R) :
    (∀ y, 0 < lowerIndex keys x → keys[lowerIndex keys x - 1]? = some y → y < x) ∧
      ∀ y, keys[lowerIndex keys x]? = some y → ¬ y < x := by
  rcases searchList_between (fun k => decide (k < x)) keys with ⟨hpass, hfail⟩
  exact ⟨fun y hpos hy => of_decide_eq_true (hpass y hpos hy),
    fun y hy => of_decide_eq_false (hfail y hy)⟩

/-! Entries of lists -/

/-- An entry of a list with one more at the end. -/
theorem of_getElem?_concat {α : Type} {xs : List α} {x y : α} {i : Nat}
    (h : (xs ++ [x])[i]? = some y) : xs[i]? = some y ∨ i = xs.length ∧ y = x := by
  rcases Nat.lt_or_ge i xs.length with hi | hi
  · rw [List.getElem?_append_left hi] at h
    exact .inl h
  · rw [List.getElem?_append_right hi, List.getElem?_singleton] at h
    split at h
    · next hzero => exact .inr ⟨by omega, (Option.some.inj h).symm⟩
    · exact absurd h (by simp only [reduceCtorEq, not_false_eq_true])

section Rising

variable {α β : Type} [Preorder β] {f : α → β} {xs : List α}

/-- In a list in order no entry is above a later one. -/
theorem rising_getElem? (h : xs.Pairwise fun x y => f x ≤ f y) {i j : Nat} {x y : α}
    (hij : i ≤ j) (hx : xs[i]? = some x) (hy : xs[j]? = some y) : f x ≤ f y := by
  rcases List.getElem?_eq_some_iff.mp hx with ⟨hi, rfl⟩
  rcases List.getElem?_eq_some_iff.mp hy with ⟨hj, rfl⟩
  rcases Nat.lt_or_eq_of_le hij with hlt | rfl
  · exact List.pairwise_iff_getElem.mp h i j hi hj hlt
  · exact le_rfl

/-- The first entry is not above any. -/
theorem rising_first_le (h : xs.Pairwise fun x y => f x ≤ f y) {first y : α}
    (hfirst : xs.head? = some first) (hy : y ∈ xs) : f first ≤ f y := by
  rcases List.mem_iff_getElem?.mp hy with ⟨i, hi⟩
  rw [List.head?_eq_getElem?] at hfirst
  exact rising_getElem? h (Nat.zero_le i) hfirst hi

/-- The last one is not below any. -/
theorem rising_le_last (h : xs.Pairwise fun x y => f x ≤ f y) {last y : α}
    (hlast : xs.getLast? = some last) (hy : y ∈ xs) : f y ≤ f last := by
  rcases List.mem_iff_getElem?.mp hy with ⟨i, hi⟩
  have hbound := (List.getElem?_eq_some_iff.mp hi).1
  rw [List.getLast?_eq_getElem?] at hlast
  exact rising_getElem? h (by omega) hi hlast

end Rising

/-- In a table in order, the keys below a value are those before the index that is
    found. -/
theorem lowerIndex_lt_iff {R : Type} [OrderedScalar R] {keys : List R}
    (h : keys.Pairwise (· ≤ ·)) (x : R) {i : Nat} {y : R} (hy : keys[i]? = some y) :
    y < x ↔ i < lowerIndex keys x := by
  rcases lowerIndex_between keys x with ⟨hbelow, habove⟩
  have hle := lowerIndex_le keys x
  rcases List.getElem?_eq_some_iff.mp hy with ⟨hi, rfl⟩
  have hpairs := List.pairwise_iff_getElem.mp h
  constructor
  · intro hlt
    by_contra hlate
    -- The key at the index is not below the value, and the later ones are not below that key.
    have hnot := habove _ (List.getElem?_eq_getElem (by omega))
    rcases Nat.eq_or_lt_of_le (Nat.not_lt.mp hlate) with heq | hlater
    · simp only [heq] at hnot
      exact hnot hlt
    · exact hnot ((hpairs _ i (by omega) hi hlater).trans_lt hlt)
  · intro hlt
    have hlast := hbelow _ (by omega) (List.getElem?_eq_getElem (by omega))
    rcases Nat.eq_or_lt_of_le (Nat.le_sub_one_of_lt hlt) with heq | hearlier
    · simp only [← heq] at hlast
      exact hlast
    · exact (hpairs i _ hi (by omega) hearlier).trans_lt hlast

end JerkPlan
