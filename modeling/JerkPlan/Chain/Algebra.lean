/-!
# Coordinates of one knot

The solvers of this library work on chains: knots a fixed step apart, each
carrying a position, a speed and an acceleration, with the jerk constant from
one knot to the next. All a chain leaves open is how much the acceleration
changes on each interval, so one knot has four coordinates, the three of its
state and the change that leads to the next one.

`Vec` is a vector of these four coordinates and `Sym` a symmetric form on
them. They are written out coordinate by coordinate: every solver step is a
handful of such operations per knot, and nothing larger is ever assembled.

## Main definitions

* `Vec`: The coordinates of a knot, and of anything paired with them.
* `Sym`: A symmetric form on the coordinates of a knot.
* `Sym.outer`: The form that squares a linear expression.
* `Vec.next`: The state that constant jerk leads to.
* `Vec.pullback`: A linear form on the next state, read on this knot.
* `Sym.pullback`: A quadratic form on the next state, read on this knot.
-/

namespace JerkPlan

namespace Chain

/-- Position, speed and acceleration at a knot, and the change of the
    acceleration up to the next knot. -/
structure Vec where
  s : Float
  v : Float
  a : Float
  u : Float

namespace Vec

/-- The vector of four equal coordinates. -/
def fill (c : Float) : Vec := ⟨c, c, c, c⟩

/-- The origin. -/
def zero : Vec := fill 0.0

def add (p q : Vec) : Vec := ⟨p.s + q.s, p.v + q.v, p.a + q.a, p.u + q.u⟩

def sub (p q : Vec) : Vec := ⟨p.s - q.s, p.v - q.v, p.a - q.a, p.u - q.u⟩

def scale (c : Float) (p : Vec) : Vec := ⟨c * p.s, c * p.v, c * p.a, c * p.u⟩

/-- The value of a linear form at a vector. -/
def dot (p q : Vec) : Float := p.s * q.s + p.v * q.v + p.a * q.a + p.u * q.u

/-- The largest coordinate in absolute value. -/
def size (p : Vec) : Float := max (max p.s.abs p.v.abs) (max p.a.abs p.u.abs)

/-- The state one step on, its own change left open. -/
def next (δ : Float) (p : Vec) : Vec :=
  ⟨p.s + δ * p.v + δ * δ / 2.0 * p.a + δ * δ / 6.0 * p.u,
    p.v + δ * p.a + δ / 2.0 * p.u, p.a + p.u, 0.0⟩

/-- The linear form on a knot that gives what `l` gives on the next state. -/
def pullback (δ : Float) (l : Vec) : Vec :=
  ⟨l.s, δ * l.s + l.v, δ * δ / 2.0 * l.s + δ * l.v + l.a,
    δ * δ / 6.0 * l.s + δ / 2.0 * l.v + l.a⟩

end Vec

/-- A symmetric form on the coordinates of a knot, by its upper triangle. -/
structure Sym where
  ss : Float
  sv : Float
  sa : Float
  su : Float
  vv : Float
  va : Float
  vu : Float
  aa : Float
  au : Float
  uu : Float

namespace Sym

/-- The form that is zero everywhere. -/
def zero : Sym := ⟨0.0, 0.0, 0.0, 0.0, 0.0, 0.0, 0.0, 0.0, 0.0, 0.0⟩

/-- The form that weighs each squared coordinate by itself. -/
def diagonal (d : Vec) : Sym := ⟨d.s, 0.0, 0.0, 0.0, d.v, 0.0, 0.0, d.a, 0.0, d.u⟩

def add (m n : Sym) : Sym :=
  ⟨m.ss + n.ss, m.sv + n.sv, m.sa + n.sa, m.su + n.su, m.vv + n.vv, m.va + n.va,
    m.vu + n.vu, m.aa + n.aa, m.au + n.au, m.uu + n.uu⟩

/-- `c` times the square of the linear form `l`. -/
def outer (c : Float) (l : Vec) : Sym :=
  let cs := c * l.s
  let cv := c * l.v
  let ca := c * l.a
  ⟨cs * l.s, cs * l.v, cs * l.a, cs * l.u, cv * l.v, cv * l.a, cv * l.u, ca * l.a,
    ca * l.u, c * l.u * l.u⟩

/-- The linear form that the symmetric form makes of a vector. -/
def apply (m : Sym) (p : Vec) : Vec :=
  ⟨m.ss * p.s + m.sv * p.v + m.sa * p.a + m.su * p.u,
    m.sv * p.s + m.vv * p.v + m.va * p.a + m.vu * p.u,
    m.sa * p.s + m.va * p.v + m.aa * p.a + m.au * p.u,
    m.su * p.s + m.vu * p.v + m.au * p.a + m.uu * p.u⟩

/-- The form on a knot that gives what `m` gives on the next state. -/
def pullback (δ : Float) (m : Sym) : Sym :=
  let cs := Vec.pullback δ ⟨m.ss, m.sv, m.sa, 0.0⟩
  let cv := Vec.pullback δ ⟨m.sv, m.vv, m.va, 0.0⟩
  let ca := Vec.pullback δ ⟨m.sa, m.va, m.aa, 0.0⟩
  let rs := Vec.pullback δ ⟨cs.s, cv.s, ca.s, 0.0⟩
  let rv := Vec.pullback δ ⟨cs.v, cv.v, ca.v, 0.0⟩
  let ra := Vec.pullback δ ⟨cs.a, cv.a, ca.a, 0.0⟩
  let ru := Vec.pullback δ ⟨cs.u, cv.u, ca.u, 0.0⟩
  ⟨rs.s, rs.v, rs.a, rs.u, rv.v, rv.a, rv.u, ra.a, ra.u, ru.u⟩

end Sym

end Chain

end JerkPlan
