import Mathlib.Data.List.Chain
import JerkPlan.Proofs.Search
import JerkPlan.SpeedSeries

/-!
# Sorting

What sorting keeps, what it leaves alone, and that it puts in order.

Sorting only moves entries: the leading run and what follows it are the list,
turning the run round moves its entries, and every insertion adds the one entry
that it is about. This takes nothing from the relation that is sorted by, which
need not be an order. A list no entry of which is below the one before it is
its own leading run, and stays as it is. So a copy of a series is the series.

That the result is in order does need a relation that orders, `Ranks`. The run has
neighbours in order, and a value goes where the search stops: it is not below the
entry before that place and is below the one at it. For all the others this
follows from the order that they are in already.

Nor do entries change places that the relation does not tell apart. To see this one
looks only at some of them, by a filter. A value goes after all of these, and a run that
is turned round has one of them at most.

## Main definitions

* `Ranks`: A relation by which entries can be put in order.
* `InOrder`: A list no entry of which is below an earlier one.
* `SpeedSeries.Sorts`: Samples in order of time.

## Theorems

* `leadingRun_append`: A run and the rest are the list.
* `insertAfter_perm`, `arrange_perm`: Sorting moves entries.
* `leadingRun_of_isChain`, `arrange_of_isChain`: A list in order stays as it is.
* `InOrder.before`, `InOrder.after`: Entries around the place of a value.
* `insertAfter_inOrder`, `arrange_inOrder`: Sorting puts a list in order.
* `filter_insertAfter`, `filter_arrange`: What is not told apart stays in its order.
* `SpeedSeries.ofList_sorts`: A series has the samples that it is made of.
* `SpeedSeries.copy_eq`: A copy has the same samples.
-/

namespace JerkPlan

variable {α : Type} {below related : α → α → Bool}

theorem leadingRun_append (x : α) (ys : List α) :
    (leadingRun related x ys).1 ++ (leadingRun related x ys).2 = x :: ys := by
  induction ys generalizing x with
  | nil => rfl
  | cons y ys ih =>
      rw [leadingRun]
      by_cases h : related x y = true
      · rw [if_pos h]
        exact congrArg (x :: ·) (ih y)
      · rw [if_neg h]
        rfl

theorem insertAfter_perm (xs : List α) (x : α) : (insertAfter below xs x).Perm (x :: xs) := by
  unfold insertAfter
  simp only
  refine List.perm_middle.trans ?_
  rw [List.take_append_drop]

theorem foldl_insertAfter_perm (rest : List α) :
    ∀ run : List α, (rest.foldl (insertAfter below) run).Perm (run ++ rest) := by
  induction rest with
  | nil =>
      intro run
      rw [List.foldl_nil, List.append_nil]
  | cons x rest ih =>
      intro run
      rw [List.foldl_cons]
      refine (ih _).trans ?_
      exact ((insertAfter_perm run x).append_right rest).trans List.perm_middle.symm

/-- Sorting by any relation moves entries and does nothing else to them. -/
theorem arrange_perm (xs : List α) : (arrange below xs).Perm xs := by
  match xs with
  | [] => exact .refl _
  | [x] => exact .refl _
  | x :: y :: ys =>
      rw [arrange]
      by_cases h : below y x = true
      · simp only [if_pos h]
        have hrun : (leadingRun (fun a b => below b a) x (y :: ys)).1 ++
            (leadingRun (fun a b => below b a) x (y :: ys)).2 = x :: y :: ys :=
          leadingRun_append x (y :: ys)
        refine (foldl_insertAfter_perm _ _).trans ?_
        refine ((List.reverse_perm _).append_right _).trans ?_
        rw [hrun]
      · simp only [if_neg h]
        refine (foldl_insertAfter_perm _ _).trans ?_
        rw [leadingRun_append]

theorem leadingRun_of_isChain {x : α} {ys : List α}
    (h : (x :: ys).IsChain fun a b => related a b = true) :
    leadingRun related x ys = (x :: ys, []) := by
  induction ys generalizing x with
  | nil => rfl
  | cons y ys ih =>
      rw [List.isChain_cons_cons] at h
      rw [leadingRun, if_pos h.1, ih h.2]

/-- A list no entry of which is below the one before it stays as it is. -/
theorem arrange_of_isChain {xs : List α} (h : xs.IsChain fun a b => below b a = false) :
    arrange below xs = xs := by
  match xs with
  | [] => rfl
  | [x] => rfl
  | x :: y :: ys =>
      have hfirst := (List.isChain_cons_cons.mp h).1
      have hrun : (x :: y :: ys).IsChain fun a b => (!below b a) = true :=
        h.imp fun _ _ hab => by rw [hab, Bool.not_false]
      rw [arrange]
      simp only [hfirst, Bool.false_eq_true, if_false, leadingRun_of_isChain hrun, List.foldl_nil]

/-! What is in order -/

/-- A relation by which entries can be put in order: none is below another and above it at
    once, and what is not below an entry is not below whatever that one is not below. -/
structure Ranks (below : α → α → Bool) : Prop where
  asymm : ∀ a b, below a b = true → below b a = false
  trans : ∀ a b c, below b a = false → below c b = false → below c a = false

/-- No entry is below an earlier one. -/
def InOrder (below : α → α → Bool) (xs : List α) : Prop :=
  xs.Pairwise fun a b => below b a = false

section Neighbours

variable {xs : List α} {x : α} {i : Nat}

/-- A value that is not below the entry before a place is below none of those before it. -/
theorem InOrder.before (h : InOrder below xs) (hbelow : Ranks below) (hi : i ≤ xs.length)
    (hlast : ∀ y, 0 < i → xs[i - 1]? = some y → below x y = false) :
    ∀ y ∈ xs.take i, below x y = false := by
  intro y hy
  rcases List.mem_take_iff_getElem.mp hy with ⟨j, hj, rfl⟩
  have hnear := hlast _ (by omega) (List.getElem?_eq_getElem (by omega))
  rcases Nat.lt_or_ge j (i - 1) with hearlier | hthere
  · exact hbelow.trans _ _ _
      (List.pairwise_iff_getElem.mp h j (i - 1) (by omega) (by omega) hearlier) hnear
  · have heq : j = i - 1 := by omega
    subst heq
    exact hnear

/-- A value that is below the entry at a place is below all later ones. -/
theorem InOrder.after (h : InOrder below xs) (hbelow : Ranks below)
    (hnext : ∀ y, xs[i]? = some y → below x y = true) :
    ∀ y ∈ xs.drop i, below x y = true := by
  intro y hy
  rcases List.mem_drop_iff_getElem.mp hy with ⟨j, hj, rfl⟩
  have hnear := hnext _ (List.getElem?_eq_getElem (by omega))
  rcases Nat.eq_zero_or_pos j with rfl | hlater
  · exact hnear
  · by_contra hnot
    have hfar := hbelow.trans _ _ _
      (List.pairwise_iff_getElem.mp h i (i + j) (by omega) (by omega) (by omega))
      (Bool.eq_false_iff.mpr hnot)
    exact absurd (hfar.symm.trans hnear) Bool.false_ne_true

end Neighbours

/-- A value is put into a list in order after all that it is not below, and before the rest. -/
theorem insertAfter_eq (hbelow : Ranks below) {xs : List α} (h : InOrder below xs) (x : α) :
    ∃ before after, xs = before ++ after ∧ insertAfter below xs x = before ++ x :: after ∧
      (∀ y ∈ before, below x y = false) ∧ ∀ y ∈ after, below x y = true := by
  rcases searchList_between (fun y => !below x y) xs with ⟨hpass, hfail⟩
  have hle : searchList (fun y => !below x y) xs ≤ xs.length :=
    search_le _ _ _ _ (Nat.zero_le _)
  refine ⟨_, _, (List.take_append_drop _ xs).symm, rfl, ?_, ?_⟩
  · exact h.before hbelow hle fun y hpos hy => (Bool.not_eq_true' _).mp (hpass y hpos hy)
  · exact h.after hbelow fun y hy => (Bool.not_eq_false' _).mp (hfail y hy)

/-- A value that is put into a list in order leaves it in order. -/
theorem insertAfter_inOrder (hbelow : Ranks below) {xs : List α} (h : InOrder below xs) (x : α) :
    InOrder below (insertAfter below xs x) := by
  rcases insertAfter_eq hbelow h x with ⟨before, after, rfl, heq, hbefore, hafter⟩
  rcases List.pairwise_append.mp h with ⟨hleft, hright, hacross⟩
  rw [heq]
  refine List.pairwise_append.mpr ⟨hleft, List.pairwise_cons.mpr ⟨?_, hright⟩, ?_⟩
  · exact fun y hy => hbelow.asymm _ _ (hafter y hy)
  · intro y hy z hz
    rcases List.mem_cons.mp hz with rfl | hz
    · exact hbefore y hy
    · exact hacross y hy z hz

/-- So do several values, one after the other. -/
theorem foldl_insertAfter_inOrder (hbelow : Ranks below) (rest : List α) :
    ∀ run, InOrder below run → InOrder below (rest.foldl (insertAfter below) run) := by
  induction rest with
  | nil => exact fun run h => h
  | cons x rest ih => exact fun run h => ih _ (insertAfter_inOrder hbelow h x)

/-- The leading run begins with the first entry, and its neighbours are related. -/
theorem leadingRun_isChain (related : α → α → Bool) (x : α) (ys : List α) :
    ∃ run, (leadingRun related x ys).1 = x :: run ∧
      (x :: run).IsChain fun a b => related a b = true := by
  induction ys generalizing x with
  | nil => exact ⟨[], rfl, .singleton x⟩
  | cons y ys ih =>
      rw [leadingRun]
      by_cases h : related x y = true
      · rcases ih y with ⟨run, hrun, hchain⟩
        rw [if_pos h]
        exact ⟨y :: run, congrArg (x :: ·) hrun, .cons_cons h hchain⟩
      · rw [if_neg h]
        exact ⟨[], rfl, .singleton x⟩

/-- Neighbours in order put a list in order. -/
theorem inOrder_of_isChain (hbelow : Ranks below) {xs : List α}
    (h : xs.IsChain fun a b => below b a = false) : InOrder below xs :=
  haveI : IsTrans α fun a b => below b a = false := ⟨hbelow.trans⟩
  h.pairwise

/-- Sorting begins with a run in order, which is the leading one of the list, or that one
    turned round if each of its entries is below the one before it. -/
theorem arrange_run (hbelow : Ranks below) (xs : List α) :
    ∃ run rest, arrange below xs = rest.foldl (insertAfter below) run ∧ InOrder below run ∧
      (run ++ rest = xs ∨
        run.reverse ++ rest = xs ∧ run.reverse.IsChain fun a b => below b a = true) := by
  match xs with
  | [] => exact ⟨[], [], rfl, List.Pairwise.nil, Or.inl rfl⟩
  | [x] => exact ⟨[x], [], rfl, List.pairwise_singleton _ x, Or.inl rfl⟩
  | x :: y :: ys =>
      rw [arrange]
      by_cases hfirst : below y x = true
      · simp only [if_pos hfirst]
        rcases leadingRun_isChain (fun a b => below b a) x (y :: ys) with ⟨run, hrun, hchain⟩
        rw [← hrun] at hchain
        refine ⟨_, _, rfl, inOrder_of_isChain hbelow ?_, Or.inr ?_⟩
        · rw [List.isChain_reverse]
          exact hchain.imp fun a b hab => hbelow.asymm _ _ hab
        · rw [List.reverse_reverse]
          exact ⟨leadingRun_append x (y :: ys), hchain⟩
      · simp only [if_neg hfirst]
        rcases leadingRun_isChain (fun a b => !below b a) x (y :: ys) with ⟨run, hrun, hchain⟩
        rw [← hrun] at hchain
        refine ⟨_, _, rfl, inOrder_of_isChain hbelow ?_, Or.inl (leadingRun_append x (y :: ys))⟩
        exact hchain.imp fun a b hab => (Bool.not_eq_true' _).mp hab

/-- Sorting puts a list in order. -/
theorem arrange_inOrder (hbelow : Ranks below) (xs : List α) : InOrder below (arrange below xs) := by
  rcases arrange_run hbelow xs with ⟨run, rest, heq, horder, _⟩
  rw [heq]
  exact foldl_insertAfter_inOrder hbelow rest run horder

/-! What is not told apart -/

section Stability

variable {kept : α → Bool}

/-- A value that is put into a list in order comes after all entries from which it is not
    told apart. -/
theorem filter_insertAfter (hbelow : Ranks below)
    (hkept : ∀ a b, kept a = true → kept b = true → below a b = false) {xs : List α}
    (h : InOrder below xs) (x : α) :
    (insertAfter below xs x).filter kept = xs.filter kept ++ [x].filter kept := by
  rcases insertAfter_eq hbelow h x with ⟨before, after, rfl, heq, _, hafter⟩
  by_cases hx : kept x = true
  · -- All that comes after the value is told apart from it.
    have hnone : after.filter kept = [] := by
      refine List.filter_eq_nil_iff.mpr fun y hy hyk => ?_
      exact absurd ((hkept x y hx hyk).symm.trans (hafter y hy)) Bool.false_ne_true
    rw [heq, List.filter_append, List.filter_append, List.filter_cons_of_pos hx, hnone,
      List.append_nil, List.filter_cons_of_pos hx, List.filter_nil]
  · rw [heq, List.filter_append, List.filter_append, List.filter_cons_of_neg hx,
      List.filter_cons_of_neg hx, List.filter_nil, List.append_nil]

/-- So does each of several values. -/
theorem filter_foldl_insertAfter (hbelow : Ranks below)
    (hkept : ∀ a b, kept a = true → kept b = true → below a b = false) (rest : List α) :
    ∀ run, InOrder below run → (rest.foldl (insertAfter below) run).filter kept =
      run.filter kept ++ rest.filter kept := by
  induction rest with
  | nil =>
      intro run _
      rw [List.foldl_nil, List.filter_nil, List.append_nil]
  | cons x rest ih =>
      intro run h
      rw [List.foldl_cons, ih _ (insertAfter_inOrder hbelow h x), filter_insertAfter hbelow hkept h,
        List.append_assoc, ← List.filter_append, List.singleton_append]

/-- What is below an entry is below all that this one is below. -/
theorem Ranks.strict (hbelow : Ranks below) (a b c : α) (hab : below b a = true)
    (hbc : below c b = true) : below c a = true := by
  by_contra hnot
  have hback := hbelow.trans b a c (hbelow.asymm b a hab) (Bool.eq_false_iff.mpr hnot)
  exact absurd (hback.symm.trans hbc) Bool.false_ne_true

/-- Of entries each of which is below the one before it, one is looked at at most. -/
theorem filter_reverse_of_descending (hbelow : Ranks below)
    (hkept : ∀ a b, kept a = true → kept b = true → below a b = false) {run : List α}
    (h : run.IsChain fun a b => below b a = true) : run.reverse.filter kept = run.filter kept := by
  have htrans : IsTrans α fun a b => below b a = true := ⟨hbelow.strict⟩
  have hpairs := h.pairwise.filter kept
  rw [List.filter_reverse]
  match hseen : run.filter kept with
  | [] => rfl
  | [a] => rfl
  | a :: b :: rest =>
      rw [hseen, List.pairwise_cons] at hpairs
      have ha : a ∈ run.filter kept := by
        rw [hseen]
        exact List.mem_cons_self
      have hb : b ∈ run.filter kept := by
        rw [hseen]
        exact List.mem_cons_of_mem a List.mem_cons_self
      have hsame := hkept b a (List.mem_filter.mp hb).2 (List.mem_filter.mp ha).2
      exact absurd (hsame.symm.trans (hpairs.1 b List.mem_cons_self)) Bool.false_ne_true

/-- Entries that are not told apart stay in their order. -/
theorem filter_arrange (hbelow : Ranks below)
    (hkept : ∀ a b, kept a = true → kept b = true → below a b = false) (xs : List α) :
    (arrange below xs).filter kept = xs.filter kept := by
  rcases arrange_run hbelow xs with ⟨run, rest, heq, horder, hparts⟩
  rw [heq, filter_foldl_insertAfter hbelow hkept rest run horder]
  rcases hparts with rfl | ⟨rfl, hdescending⟩
  · rw [List.filter_append]
  · have hturned := filter_reverse_of_descending hbelow hkept hdescending
    rw [List.reverse_reverse] at hturned
    rw [List.filter_append, hturned]

end Stability

/-! Series of samples -/

namespace SpeedSeries

variable {R : Type} [OrderedScalar R]

/-- Samples are put in order by their times. -/
theorem ranks_time : Ranks fun p q : SpeedSample R => decide (p.t < q.t) := by
  constructor
  · exact fun p q h => decide_eq_false (of_decide_eq_true h).le.not_gt
  · intro p q r hqp hrq
    have hlow : p.t ≤ q.t := not_lt.mp (of_decide_eq_false hqp)
    have hhigh : q.t ≤ r.t := not_lt.mp (of_decide_eq_false hrq)
    exact decide_eq_false (hlow.trans hhigh).not_gt

/-- A list has the samples of another one in order of time, and those of one time in the
    order in which they are there. -/
structure Sorts (ys zs : List (SpeedSample R)) : Prop where
  perm : zs.Perm ys
  ordered : zs.Pairwise fun p q => p.t ≤ q.t
  stable : ∀ t, zs.filter (fun p => decide (p.t = t)) = ys.filter fun p => decide (p.t = t)

/-- So a series has the samples that it is made of. -/
theorem ofList_sorts (xs : List (SpeedSample R)) : Sorts xs (ofList xs).samples := by
  refine ⟨arrange_perm xs, ?_, fun t => filter_arrange ranks_time ?_ xs⟩
  · exact (arrange_inOrder ranks_time xs).imp fun h => not_lt.mp (of_decide_eq_false h)
  · intro p q hp hq
    rw [decide_eq_true_eq] at hp hq
    exact decide_eq_false (hp.trans hq.symm).not_lt

/-- A copy of a series in order of time has the same samples. -/
theorem copy_eq {d : SpeedSeries R} (h : d.samples.Pairwise fun p q => p.t ≤ q.t) :
    d.copy = d := by
  rw [copy, ofList, arrange_of_isChain]
  exact h.isChain.imp fun p q hpq => decide_eq_false (not_lt.mpr hpq)

end SpeedSeries

end JerkPlan
