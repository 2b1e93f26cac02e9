import JerkPlan.JerkCurve
import JerkPlan.SpeedLimit

/-!
# Tables of curves

A curve tabulated at evenly spaced places from zero on, and the smooth
function through the table: a cubic on each cell, with two continuous
derivatives, and no bend of the third one next to either end. Outside the
table the function is zero.

The table reaches as far as is asked for, and at least as far as the curve. It
has four places or more, and a spacing no wider than asked for. Beyond the
end of the curve its last value is held.

The second derivatives at the places come from a linear system in which each
place is tied to its two neighbours only. The two places next to the ends are
given by their own neighbours alone, and those in between by elimination from
one end and substitution from the other.

## Main definitions

* `CurveTable`: Values at evenly spaced places.
* `CurveTable.ofCurve`: The table of a curve.
* `Spline`: A table with the second derivatives of its smooth function.
* `Spline.eval`: The smooth function.
-/

namespace JerkPlan

variable {R : Type} [Scalar R]

/-- Values at places a spacing apart, the first one at zero and the last one
    at the end. -/
structure CurveTable (R : Type) where
  spacing : R
  finish : R
  values : List R

namespace CurveTable

/-- The usual spacing of a table. -/
def usualSpacing : R := decimal 5 1

/-- The end of a table that reaches to `reach`. -/
def finishFor (curve : JerkCurve R) (reach spacing : R) : R :=
  greater (greater reach curve.length) spacing

/-- The places of a table with `count` steps, the last of which is the end
    exactly. -/
def places (finish : R) (count : Nat) : List R :=
  ((List.range count).map fun (i : Nat) => (i : R) * (finish / (count : R))) ++ [finish]

/-- The table of a curve that reaches to `reach`. -/
def ofCurve (curve : JerkCurve R) (reach spacing : R) : Except (Failure R) (CurveTable R) :=
  let finish := finishFor curve reach spacing
  if same spacing 0 then .error .divisionByZero
  else
    match ceiling (finish / spacing) with
    | .error .undefined => .error .undefinedCount
    | .error .infinite => .error .infiniteCount
    | .ok n =>
      let count := (max 3 n).toNat
      .ok ⟨finish / (count : R), finish,
        (places finish count).map fun s => curve.eval 0 (lesser s curve.length)⟩

end CurveTable

/-- A table with the second derivatives at its places. -/
structure Spline (R : Type) where
  spacing : R
  finish : R
  values : Array R
  bends : Array R

namespace Spline

/-- The unknowns `m` of a chain of equations `m[i-1] + 4 * m[i] + m[i+1] = d[i]`
    whose last neighbour is given, from the relation
    `m[i-1] = offset - factor * m[i]` that the equations before have led to. -/
def chain (last : R) : (factor offset : R) → List R → List R
  | _, _, [] => []
  | factor, offset, d :: ds =>
    let pivot : R := ((4 : Nat) : R) - factor
    let factor' := 1 / pivot
    let offset' := (d - offset) / pivot
    let rest := chain last factor' offset' ds
    (offset' - factor' * rest.headD last) :: rest

/-- The scaled second differences of a table. -/
def differences (spacing : R) : List R → List R
  | x :: y :: z :: rest =>
    ((6 : Nat) : R) * (x - y - y + z) / (spacing * spacing) ::
      differences spacing (y :: z :: rest)
  | _ => []

/-- The second derivatives of a table, given its second differences. -/
def bendsOf (ds : List R) : List R :=
  match ds with
  | [] => []
  | first :: rest =>
    let six : R := ((6 : Nat) : R)
    let m := first / six
    let n := rest.getLastD first / six
    let inner := chain n 0 m rest.dropLast
    let ms := m :: inner ++ [n]
    let second := inner.headD n
    let butLast := inner.getLastD m
    (m + m - second) :: ms ++ [n + n - butLast]

/-- The smooth function through a table. -/
def ofTable (t : CurveTable R) : Spline R :=
  ⟨t.spacing, t.finish, t.values.toArray, (bendsOf (differences t.spacing t.values)).toArray⟩

/-- The cell of the table in which a place falls; places outside fall into the
    first or the last cell. -/
def cell (f : Spline R) (x : R) : Nat :=
  match Scalar.truncate (x / f.spacing) with
  | .ok n => min n.toNat (f.values.size - 2)
  | .error _ => 0

/-- The cubic of a cell with its first two derivatives. -/
def jet (f : Spline R) (x : R) : Motion R :=
  let i := f.cell x
  let six : R := ((6 : Nat) : R)
  let two : R := ((2 : Nat) : R)
  let h := f.spacing
  let y := f.values.getD i 0
  let y' := f.values.getD (i + 1) 0
  let m := f.bends.getD i 0
  let m' := f.bends.getD (i + 1) 0
  let b := x - (i : R) * h
  let a := h - b
  ⟨m * a * a * a / (six * h) + m' * b * b * b / (six * h) + (y / h - m * h / six) * a +
      (y' / h - m' * h / six) * b,
    -(m * a * a / (two * h)) + m' * b * b / (two * h) - (y / h - m * h / six) +
      (y' / h - m' * h / six),
    m * a / h + m' * b / h⟩

/-- The smooth function of the table, zero outside. -/
def eval (f : Spline R) (x : R) : R :=
  if x < 0 ∨ f.finish < x then 0 else (f.jet x).p

/-- The smooth function through the table of a curve. -/
def ofCurve (curve : JerkCurve R) (reach spacing : R) : Except (Failure R) (Spline R) :=
  (CurveTable.ofCurve curve reach spacing).map ofTable

end Spline

end JerkPlan
