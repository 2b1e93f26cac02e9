import JerkPlan.Decimal.Digits

/-!
# Texts of machine numbers

How numbers are written in messages and in answers.

Two layouts are in use. `Decimal.text` writes the shortest decimal that reads
back, positionally from `10 ^ -4` up to `10 ^ 16` and with an exponent of at
least two digits elsewhere, and always shows that the number is not a count:
by a point or by an exponent. `Decimal.fixedText` writes a given number of
places. Values without digits are spelled `nan` and `inf`.

Answers are rounded before they are written: to ten significant digits, or to
a number of places where a solver is involved. A rounded value is again a
machine number, and `-0.0` becomes `0.0`.

## Main definitions

* `Decimal.text`: The shortest text of a number.
* `Decimal.fixedText`: A number with a given number of places.
* `Decimal.roundSignificant`: A number rounded to ten digits.
* `Decimal.roundPlaces`: A number rounded to a number of places.
-/

namespace JerkPlan

namespace Decimal

/-- The digits of a number without the zeros at its end. -/
def stripZeros : Nat → Nat → Int → Digits
  | 0, n, e => ⟨n, e⟩
  | fuel + 1, n, e =>
    if n = 0 then ⟨0, 0⟩
    else if n % 10 = 0 then stripZeros fuel (n / 10) (e + 1) else ⟨n, e⟩

/-- A run of zeros. -/
def zeros (n : Nat) : String := String.ofList (List.replicate n '0')

/-- A positive decimal with its point in place, or with an exponent. -/
def Digits.text (d : Digits) : String :=
  let d := stripZeros (digitCount d.digits) d.digits d.exponent
  let ds := (Nat.toDigits 10 d.digits)
  let point : Int := ds.length + d.exponent
  if d.digits = 0 then "0.0"
  else if point < -3 || 16 < point then
    let e := point - 1
    let fraction := match ds.tail with
      | [] => ""
      | rest => "." ++ String.ofList rest
    let size := toString e.natAbs
    String.ofList (ds.take 1) ++ fraction ++ (if e < 0 then "e-" else "e+") ++
      (if size.length < 2 then "0" ++ size else size)
  else if point ≤ 0 then "0." ++ zeros (-point).toNat ++ String.ofList ds
  else if ds.length ≤ point.toNat then
    String.ofList ds ++ zeros (point.toNat - ds.length) ++ ".0"
  else String.ofList (ds.take point.toNat) ++ "." ++ String.ofList (ds.drop point.toNat)

/-- Whether the sign of a number is negative, zeros included. -/
def negative (x : Float) : Bool := x.toBits >>> 63 = 1

/-- The text of a number, by the text of its size. Values without digits have
    names of their own. -/
def signed (x : Float) (size : Binary → String) : String :=
  if x.isNaN then "nan"
  else (if negative x then "-" else "") ++ if x.isInf then "inf" else size (Binary.ofFloat x)

/-- The shortest text that reads back. -/
def text (x : Float) : String := signed x fun b => b.shortest.text

/-- A number with a given number of places, ties to even. -/
def fixedText (places : Nat) (x : Float) : String :=
  signed x fun b =>
    let ds := Nat.toDigits 10 (b.roundAt (-places)).digits
    let ds := List.replicate (places + 1 - ds.length) '0' ++ ds
    let whole := ds.length - places
    String.ofList (ds.take whole) ++ "." ++ String.ofList (ds.drop whole)

/-- A number rounded by a rule for its size; the sign of zero is dropped. -/
def rounded (rule : Binary → Digits) (x : Float) : Float :=
  if x.isNaN || x.isInf then x
  else
    let y := (rule (Binary.ofFloat x)).toFloat
    if y == 0.0 then 0.0 else if negative x then -y else y

/-- A number rounded to ten significant digits. -/
def roundSignificant (x : Float) : Float := rounded (·.roundTo 10) x

/-- A number rounded to a number of places. -/
def roundPlaces (places : Nat) (x : Float) : Float := rounded (·.roundAt (-places)) x

end Decimal

end JerkPlan
