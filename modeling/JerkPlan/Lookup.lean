import JerkPlan.Scalar

/-!
# Looking values up

Order, search and interpolation in tables of scalars.

`search` is the usual halving search for the first index at which a test
fails. It is stated for any test, so that a table out of order, or a value
that compares with nothing, still has one definite answer. On a table in
order the answer is the number of entries that pass the test.

`arrange` is a stable sort by insertion: the leading run of the list is kept,
or turned round if it strictly descends, and every further value is inserted
after its equals at the place that `search` finds. Two values are compared by
one strict relation only.

## Main definitions

* `search`: The first index of a range at which a test fails.
* `lowerIndex`: The number of keys below a value.
* `lerp`: Linear interpolation between two points.
* `entry`: An entry by its index, counted from the end when negative.
* `arrange`: Stable sorting.
-/

namespace JerkPlan

/-- Halving search between `lo` and `hi` for the first index that fails the
    test, with enough `fuel` to reach it. -/
def search (test : Nat → Bool) : (fuel lo hi : Nat) → Nat
  | 0, lo, _ => lo
  | fuel + 1, lo, hi =>
    if lo < hi then
      let mid := (lo + hi) / 2
      if test mid then search test fuel (mid + 1) hi else search test fuel lo mid
    else lo

/-- The first index of a list at which a test of the entries fails. -/
def searchList {α : Type} (test : α → Bool) (xs : List α) : Nat :=
  search (fun i => (xs[i]?).any test) xs.length 0 xs.length

/-- The entry with a given index; negative indices count from the end. -/
def entry {α : Type} (xs : List α) (i : Int) : Option α :=
  if 0 ≤ i then xs[i.toNat]?
  else if (-i).toNat ≤ xs.length then xs[xs.length - (-i).toNat]? else none

/-- Split off the longest leading run whose neighbours are related. -/
def leadingRun {α : Type} (related : α → α → Bool) : α → List α → List α × List α
  | x, [] => ([x], [])
  | x, y :: ys =>
    if related x y then
      let (run, rest) := leadingRun related y ys
      (x :: run, rest)
    else ([x], y :: ys)

/-- Put a value into a list after everything that it is not below. -/
def insertAfter {α : Type} (below : α → α → Bool) (xs : List α) (x : α) : List α :=
  let i := searchList (fun y => !below x y) xs
  xs.take i ++ x :: xs.drop i

/-- Sort by a strict relation, values that it does not separate staying in
    their order. -/
def arrange {α : Type} (below : α → α → Bool) : List α → List α
  | [] => []
  | [x] => [x]
  | x :: y :: ys =>
    let (run, rest) :=
      if below y x then
        let (run, rest) := leadingRun (fun a b => below b a) x (y :: ys)
        (run.reverse, rest)
      else leadingRun (fun a b => !below b a) x (y :: ys)
    rest.foldl (insertAfter below) run

variable {R : Type} [Scalar R]

/-- The number of keys below a value, found by halving. -/
def lowerIndex (keys : List R) (x : R) : Nat := searchList (fun k => decide (k < x)) keys

/-- The value at `t` on the line through `(t0, x0)` and `(t1, x1)`, and `x0`
    when the two times are practically one. -/
def lerp (x0 t0 x1 t1 t : R) : R :=
  if magnitude (t1 - t0) ≤ decimal 1 10 then x0
  else x0 + (t - t0) / (t1 - t0) * (x1 - x0)

/-- The order of pairs: by the first component, and by the second where the
    first ones are the same. -/
def pairBelow (p q : R × R) : Bool :=
  if same p.1 q.1 then decide (p.2 < q.2) else decide (p.1 < q.1)

end JerkPlan
