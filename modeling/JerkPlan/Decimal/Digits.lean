/-!
# Decimal digits of machine numbers

Which decimal number stands for a machine number.

A finite machine number is `m * 2 ^ e` for a natural number `m`, and every
question about its decimal digits is a question about natural numbers. Three
are answered here: the nearest multiple of a power of ten, with ties to the
even multiple; the nearest decimal of a given number of digits; and the
decimal with the fewest digits among those that read back as the same
number, the nearest one of these.

The numbers that read back as `m * 2 ^ e` reach half a step to either side,
ends included exactly when `m` is even. Below a power of two the steps are
half as long, which `narrow` records. If any decimal of a given length lies in
this interval then so does one of the two neighbours of the number on that
length's grid, so two candidates per length are enough.

## Main definitions

* `Binary`: A finite machine number, without its sign.
* `Digits`: A decimal number, without its sign.
* `Binary.roundAt`: The nearest multiple of a power of ten.
* `Binary.roundTo`: The nearest decimal of a number of digits.
* `Binary.shortest`: The shortest decimal that reads back.
-/

namespace JerkPlan

namespace Decimal

/-- The number `mantissa * 2 ^ exponent`. The number below it is only half a
    step away if `narrow`. -/
structure Binary where
  mantissa : Nat
  exponent : Int
  narrow : Bool

/-- The number `digits * 10 ^ exponent`. -/
structure Digits where
  digits : Nat
  exponent : Int

/-- The size of a finite machine number. -/
def Binary.ofFloat (x : Float) : Binary :=
  let bits := x.toBits
  let e := ((bits >>> 52) &&& 0x7FF).toNat
  let f := (bits &&& 0xFFFFFFFFFFFFF).toNat
  if e = 0 then ⟨f, -1074, false⟩ else ⟨Nat.pow 2 52 + f, (e : Int) - 1075, f = 0 && e > 1⟩

/-- The machine number nearest to a decimal one. -/
def Digits.toFloat (d : Digits) : Float :=
  if d.exponent < 0 then Float.ofScientific d.digits true (-d.exponent).toNat
  else Float.ofScientific d.digits false d.exponent.toNat

/-- `n * b ^ e` as a quotient of natural numbers. -/
def quotient (n b : Nat) (e : Int) : Nat × Nat :=
  if e < 0 then (n, Nat.pow b (-e).toNat) else (n * Nat.pow b e.toNat, 1)

/-- The order of two quotients. -/
def compareQuotients (p q : Nat × Nat) : Ordering := compare (p.1 * q.2) (q.1 * p.2)

/-- The nearest natural number to a quotient, an even one if two are. -/
def nearest (n d : Nat) : Nat :=
  let q := n / d
  let r := 2 * (n % d)
  if r < d then q else if d < r then q + 1 else if q % 2 = 0 then q else q + 1

/-- How many decimal digits a natural number has, zero having none. -/
def digitCount (n : Nat) : Nat := if n = 0 then 0 else (Nat.toDigits 10 n).length

namespace Binary

/-- The number as a quotient of natural numbers. -/
def value (x : Binary) : Nat × Nat := quotient x.mantissa 2 x.exponent

/-- The number divided by `10 ^ k`, as a quotient of natural numbers. -/
def valueAt (x : Binary) (k : Int) : Nat × Nat :=
  let (n, d) := x.value
  if k < 0 then (n * Nat.pow 10 (-k).toNat, d) else (n, d * Nat.pow 10 k.toNat)

/-- The least power of ten above a positive number. -/
def scale (x : Binary) : Int :=
  let (n, d) := x.value
  let k := (digitCount n : Int) - digitCount d
  if compareQuotients x.value (quotient 1 10 k) = .lt then k else k + 1

/-- The nearest multiple of `10 ^ k`. -/
def roundAt (x : Binary) (k : Int) : Digits :=
  let (n, d) := x.valueAt k
  ⟨nearest n d, k⟩

/-- The nearest decimal with `count` digits. -/
def roundTo (x : Binary) (count : Nat) : Digits :=
  if x.mantissa = 0 then ⟨0, 0⟩ else x.roundAt (x.scale - count)

/-- Whether a decimal number rounds to this one. -/
def readsBack (x : Binary) (d : Digits) : Bool :=
  let value := quotient d.digits 10 d.exponent
  let low := quotient (4 * x.mantissa - if x.narrow then 1 else 2) 2 (x.exponent - 2)
  let high := quotient (4 * x.mantissa + 2) 2 (x.exponent - 2)
  match compareQuotients low value, compareQuotients value high with
  | .lt, .lt => true
  | .eq, .lt | .lt, .eq => x.mantissa % 2 = 0
  | _, _ => false

/-- Of the two neighbours on the grid of `10 ^ k`, the nearest one that reads
    back. -/
def candidate (x : Binary) (k : Int) : Option Digits :=
  let (n, d) := x.valueAt k
  let below : Digits := ⟨n / d, k⟩
  let above : Digits := ⟨n / d + 1, k⟩
  match x.readsBack below, x.readsBack above with
  | true, true => some ⟨nearest n d, k⟩
  | true, false => some below
  | false, true => some above
  | false, false => none

/-- The first length from `count` on with a decimal that reads back. -/
def search (x : Binary) (top : Int) : Nat → Nat → Digits
  | 0, count => x.roundAt (top - count)
  | fuel + 1, count =>
    match x.candidate (top - count) with
    | some d => d
    | none => search x top fuel (count + 1)

/-- The shortest decimal that reads back, the nearest one of its length.
    Seventeen digits always suffice. -/
def shortest (x : Binary) : Digits :=
  if x.mantissa = 0 then ⟨0, 0⟩ else x.search x.scale 17 1

end Binary

end Decimal

end JerkPlan
