import JerkPlan.Chain.Algebra

/-!
# Quadratic costs along a chain

The least value of a quadratic cost along a chain, with no constraint but the
chain itself. The cost of what follows a knot is a quadratic form of that
knot's state, so the chain is solved from its far end: each knot hands the
form of its own least cost to the knot before it, together with the rule by
which it picks its change of acceleration. Running those rules forward from
the start gives the minimiser.

A chain has a minimiser exactly when every knot that picks a change finds its
cost curved upwards in that change. `minimize` answers `none` otherwise, which
is how the callers learn that a cost bends down somewhere along the chain.

## Main definitions

* `Cost`: A quadratic cost of one knot's coordinates.
* `rollout`: The chain that given changes of acceleration lead to.
* `minimize`: The cheapest chain from a start, if there is one.
* `costate`: The slope of the total cost in each knot's change.
-/

namespace JerkPlan

namespace Chain

/-- Half of a quadratic form and a linear form of one knot's coordinates. -/
structure Cost where
  curvature : Sym
  slope : Vec

namespace Cost

def add (c d : Cost) : Cost := ⟨c.curvature.add d.curvature, c.slope.add d.slope⟩

/-- The slope of the cost at a point. -/
def slopeAt (c : Cost) (p : Vec) : Vec := (c.curvature.apply p).add c.slope

/-- The cost of a point. -/
def value (c : Cost) (p : Vec) : Float := 0.5 * p.dot (c.curvature.apply p) + c.slope.dot p

end Cost

/-- The rule by which a knot picks its change: a linear form of its state and
    a constant. -/
structure Rule where
  form : Vec
  constant : Float

/-- The change a rule picks at a state. -/
def Rule.pick (r : Rule) (p : Vec) : Float :=
  r.form.s * p.s + r.form.v * p.v + r.form.a * p.a + r.constant

/-- The chain that starts in a state and follows the given changes; the last
    knot has no change of its own. -/
def rollout (δ : Float) (start : Vec) : List Float → List Vec
  | [] => [{ start with u := 0.0 }]
  | u :: us =>
    let here : Vec := { start with u := u }
    here :: rollout δ (here.next δ) us

/-- The least cost of what follows as a form of the state, and the rules that
    reach it, given the costs of the knots in order. The last knot picks
    nothing. -/
def backward (δ : Float) : List Cost → Option (Cost × List Rule)
  | [] => some (⟨Sym.zero, Vec.zero⟩, [])
  | [last] => some (last, [])
  | c :: rest =>
    match backward δ rest with
    | none => none
    | some (after, rules) =>
      let m := c.curvature.add (after.curvature.pullback δ)
      let l := c.slope.add (after.slope.pullback δ)
      if m.uu > 0.0 then
        let k := -1.0 / m.uu
        let rule : Rule := ⟨⟨k * m.su, k * m.vu, k * m.au, 0.0⟩, k * l.u⟩
        let least : Sym :=
          ⟨m.ss + k * m.su * m.su, m.sv + k * m.su * m.vu, m.sa + k * m.su * m.au, 0.0,
            m.vv + k * m.vu * m.vu, m.va + k * m.vu * m.au, 0.0,
            m.aa + k * m.au * m.au, 0.0, 0.0⟩
        let leastSlope : Vec :=
          ⟨l.s + k * m.su * l.u, l.v + k * m.vu * l.u, l.a + k * m.au * l.u, 0.0⟩
        some (⟨least, leastSlope⟩, rule :: rules)
      else none

/-- The chain that follows the rules from a state. -/
def forward (δ : Float) (start : Vec) : List Rule → List Vec
  | [] => [{ start with u := 0.0 }]
  | r :: rs =>
    let here : Vec := { start with u := r.pick start }
    here :: forward δ (here.next δ) rs

/-- The cheapest chain from a start, or `none` when some change could lower
    the cost without end or has no curvature at all. -/
def minimize (δ : Float) (start : Vec) (costs : List Cost) : Option (List Vec) :=
  (backward δ costs).map fun (_, rules) => forward δ start rules

/-- From the slope of the cost in each knot's own coordinates, the slope of
    the total cost in each change, later knots following along. The first
    component is the slope in the state of the first knot. -/
def costate (δ : Float) : List Vec → Vec × List Float
  | [] => (Vec.zero, [])
  | [last] => (last, [])
  | g :: rest =>
    let (after, slopes) := costate δ rest
    let total := g.add (after.pullback δ)
    ({ total with u := 0.0 }, total.u :: slopes)

end Chain

end JerkPlan
