import JerkPlan.Chain.Quadratic

/-!
# Quadratic costs under linear rows

The cheapest chain among those that keep linear inequalities on the
coordinates of single knots. Every row has a price: the cost of one unit of
falling short of it. A row with an infinite price may not be broken at all;
with a finite price it may, and a price above every force that the cost can
exert on the row makes breaking it the last resort.

The method walks through the inside of the feasible region. Each row carries
a gap to its bound, an excess by which it is allowed to fall short, and a
force that pushes the chain away from it; a step linearises the two
products that vanish at the optimum and hands the rest, a plain quadratic
cost, to `minimize`. A first trial step tells how far the products can be
pushed towards zero, the second step goes there.

`shortfall` asks only whether the rows can be kept together: with the price
one on every row and next to no other cost, the total excess of the cheapest
chain is the least total amount by which the rows must be broken.

## Main definitions

* `Row`: A priced lower bound on a linear form of one knot.
* `Knot`: A knot's cost and its rows.
* `solve`: The cheapest chain under the rows.
* `shortfall`: The least total amount by which the rows must be broken.
-/

namespace JerkPlan

namespace Chain

/-- A lower bound on a linear form of a knot's coordinates, and the price of
    each unit by which it is missed. -/
structure Row where
  form : Vec
  bound : Float
  price : Float

/-- How far a point falls short of a row. -/
def Row.miss (r : Row) (p : Vec) : Float := max 0.0 (r.bound - r.form.dot p)

/-- The cost of a knot and the rows it has to keep. -/
structure Knot where
  cost : Cost
  rows : List Row

/-- The interior state of a row. -/
structure Slack where
  row : Row
  gap : Float
  excess : Float
  force : Float

namespace Slack

/-- What is left of the price once the force is paid. -/
def rest (k : Slack) : Float := k.row.price - k.force

/-- The amount by which point, gap and excess disagree with the bound. -/
def error (k : Slack) (p : Vec) : Float := k.row.form.dot p + k.excess - k.row.bound - k.gap

/-- The products that vanish at an optimum. -/
def products (k : Slack) : List Float :=
  if k.row.price.isFinite then [k.gap * k.force, k.excess * k.rest] else [k.gap * k.force]

/-- A state well inside the region, for a row at a point. -/
def initial (push : Float) (r : Row) (p : Vec) : Slack :=
  let force := min push (0.5 * r.price)
  ⟨r, max (r.form.dot p - r.bound) 1.0, if r.price.isFinite then push / r.price else 0.0, force⟩

/-- The stiffness with which the row answers a displacement. -/
def stiffness (k : Slack) : Float := 1.0 / (k.gap / k.force + k.excess / k.rest)

/-- The change of force that a step without displacement would bring, for
    given targets of the two products. -/
def pull (k : Slack) (p : Vec) (target target' : Float) : Float :=
  k.stiffness * (target / k.force - k.gap - k.error p + (k.excess - target' / k.rest))

/-- The changes of gap, excess and force along a displacement. -/
def change (k : Slack) (p : Vec) (target target' : Float) (d : Vec) : Float × Float × Float :=
  let force := k.pull p target target' - k.stiffness * k.row.form.dot d
  (target / k.force - k.gap - k.gap / k.force * force,
    if k.row.price.isFinite then target' / k.rest - k.excess + k.excess / k.rest * force else 0.0,
    force)

/-- The longest step at most one that keeps a positive quantity from falling
    below zero. -/
def reach (x dx : Float) : Float := if dx < 0.0 then min 1.0 (-x / dx) else 1.0

/-- The longest step that a row permits. -/
def longest (k : Slack) : Float × Float × Float → Float
  | (gap, excess, force) =>
    min (min (reach k.gap gap) (reach k.force force))
      (if k.row.price.isFinite then min (reach k.excess excess) (reach k.rest (-force)) else 1.0)

/-- The state after a step of length `α`. -/
def move (k : Slack) (α : Float) : Float × Float × Float → Slack
  | (gap, excess, force) =>
    { k with gap := k.gap + α * gap, excess := k.excess + α * excess, force := k.force + α * force }

end Slack

/-- A knot in the middle of the method: its cost, its point and its rows. -/
structure Site where
  cost : Cost
  point : Vec
  slacks : List Slack

namespace Site

/-- The cost of a displacement from the site, given the targets of each
    row's products. -/
def displacementCost (x : Site) (targets : List (Float × Float)) : Cost :=
  (x.slacks.zip targets).foldl
    (fun c (k, t, t') =>
      ⟨c.curvature.add (Sym.outer k.stiffness k.row.form),
        c.slope.sub (k.row.form.scale (k.force + k.pull x.point t t'))⟩)
    ⟨x.cost.curvature, x.cost.slopeAt x.point⟩

/-- The slope of the cost at the site, the forces of its rows included. -/
def balance (x : Site) : Vec :=
  x.slacks.foldl (fun g k => g.sub (k.row.form.scale k.force)) (x.cost.slopeAt x.point)

end Site

/-- The mean of the products over a whole chain. -/
def meanProduct (xs : List Site) : Float :=
  let ps := xs.flatMap fun x => x.slacks.flatMap Slack.products
  if ps.isEmpty then 0.0 else ps.foldl (· + ·) 0.0 / Float.ofNat ps.length

/-- The steps of all rows for given displacements and targets. -/
def changes (xs : List Site) (targets : List (List (Float × Float))) (ds : List Vec) :
    List (List (Float × Float × Float)) :=
  (xs.zip (targets.zip ds)).map fun (x, ts, d) =>
    (x.slacks.zip ts).map fun (k, t, t') => k.change x.point t t' d

/-- The longest step that all rows permit. -/
def longestStep (xs : List Site) (cs : List (List (Float × Float × Float))) : Float :=
  (xs.zip cs).foldl
    (fun m (x, ks) => (x.slacks.zip ks).foldl (fun m (k, c) => min m (k.longest c)) m) 1.0

/-- The displacements towards given targets, the first state staying put. -/
def direction (δ : Float) (xs : List Site) (targets : List (List (Float × Float))) :
    Option (List Vec) :=
  minimize δ Vec.zero ((xs.zip targets).map fun (x, ts) => x.displacementCost ts)

/-- All sites after a step of length `α`. -/
def advance (α : Float) (xs : List Site) (ds : List Vec)
    (cs : List (List (Float × Float × Float))) : List Site :=
  (xs.zip (ds.zip cs)).map fun (x, d, ks) =>
    { x with point := x.point.add (d.scale α)
             slacks := (x.slacks.zip ks).map fun (k, c) => k.move α c }

/-- One step of the method: a trial step, then a step to the products that
    the trial found within reach. -/
def improve (δ : Float) (xs : List Site) : Option (List Site) := do
  let μ := meanProduct xs
  let none' := xs.map fun x => x.slacks.map fun _ => ((0.0, 0.0) : Float × Float)
  let ds ← direction δ xs none'
  let cs := changes xs none' ds
  let trial := meanProduct (advance (longestStep xs cs) xs ds cs)
  let ratio := trial / μ
  let aim := if μ > 0.0 then ratio * ratio * ratio * μ else 0.0
  let targets := (xs.zip cs).map fun (x, ks) => (x.slacks.zip ks).map fun (_, g, e, f) =>
    ((aim - g * f, aim + e * f) : Float × Float)
  let ds ← direction δ xs targets
  let cs := changes xs targets ds
  let α := longestStep xs cs
  some (advance (if α < 1.0 then 0.995 * α else 1.0) xs ds cs)

/-- The largest disagreement of the rows and the largest slope left in a
    change, relative to the size of the data. -/
def defects (δ : Float) (xs : List Site) : Float × Float :=
  let rows := xs.foldl (fun m x =>
    x.slacks.foldl (fun m k => max m ((k.error x.point).abs / (1.0 + k.row.bound.abs))) m) 0.0
  let slopes := (costate δ (xs.map Site.balance)).2
  (rows, slopes.foldl (fun m g => max m g.abs) 0.0)

/-- How far the method is from its end: the defects and the products that
    are left, each relative to what rounding lets it reach. -/
def distanceLeft (δ scale : Float) (xs : List Site) : Float :=
  let (rows, slopes) := defects δ xs
  rows / 10.0 + slopes / (100.0 * scale) + meanProduct xs / scale

/-- The distance left at which the method ends. -/
def closeEnough : Float := 1e-16

/-- The distance left from which on a step that leads away has only rounding
    errors to follow. -/
def nearEnd : Float := 1e-8

/-- The best of the method's steps: the first one close enough to the end, or
    else the closest among at most `fuel` of them. On the way the distance may
    grow, near the end a step that leads away is the last one. -/
def iterate (δ scale : Float) : (fuel : Nat) → (best : List Site) → (left : Float) →
    (xs : List Site) → List Site
  | 0, best, _, _ => best
  | fuel + 1, best, left, xs =>
    if left ≤ closeEnough then best
    else
      match improve δ xs with
      | none => best
      | some ys =>
        let left' := distanceLeft δ scale ys
        if left' < left then iterate δ scale fuel ys left' ys
        else if left'.isFinite && !(left < nearEnd) then iterate δ scale fuel best left ys
        else best

/-- The cheapest chain from a start under the rows of its knots, found with
    at most `fuel` steps from the chain of the given changes. -/
def solve (δ : Float) (fuel : Nat) (knots : List Knot) (points : List Vec) : List Site :=
  let pairs := knots.zip points
  let scale := pairs.foldl (fun m (k, p) => max m (k.cost.slopeAt p).size) 1.0
  let xs : List Site := pairs.map fun (k, p) =>
    ⟨k.cost, p, k.rows.map fun r => Slack.initial scale r p⟩
  iterate δ scale fuel xs (distanceLeft δ scale xs) xs

/-- The least total amount by which the rows must be broken. -/
def shortfall (δ : Float) (start : Vec) (rows : List (List Row)) : Float :=
  let knots : List Knot := rows.map fun rs =>
    ⟨⟨Sym.diagonal ⟨0.0, 0.0, 0.0, 1e-8⟩, Vec.zero⟩, rs.map fun r => { r with price := 1.0 }⟩
  let points := rollout δ start (List.replicate (rows.length - 1) 0.0)
  let xs := solve δ 100 knots points
  xs.foldl (fun m x => x.slacks.foldl (fun m k => m + k.row.miss x.point) m) 0.0

end Chain

end JerkPlan
