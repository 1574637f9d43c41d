import Addons.Number.Double

/-!
# The shortest decimal of a double

The text of a double has the fewest digits that read back as it, of those the ones nearest to it.
Numbers from `1e-5` up to below `1e16` are written positionally, others with an exponent.
-/

namespace Addons.Double

/-- A positive decimal `digits * 10 ^ exponent` with no trailing zero in `digits`. -/
structure Decimal where
  digits : Nat
  exponent : Int
  deriving DecidableEq, Repr

/-- Move trailing zeros of the digits into the exponent. The fuel is the number of digits. -/
def Decimal.normalize : Nat → Decimal → Decimal
  | 0, d => d
  | fuel + 1, d =>
    if d.digits ≠ 0 ∧ d.digits % 10 = 0 then normalize fuel ⟨d.digits / 10, d.exponent + 1⟩ else d

/-- The numbers that round to one double, over a common denominator: `low ≤ value ≤ high`, the ends
included when the significand is even. -/
structure Interval where
  low : Nat
  value : Nat
  high : Nat
  den : Nat
  closed : Bool

/-- The rounding interval of a nonzero double. Below a power of two the next double is half as far
away. -/
def interval (x : Double) : Interval :=
  let m := x.significand
  let scale := Nat.pow 2 x.unit
  let low := if m = Nat.pow 2 52 ∧ x.unit ≠ 0 then 4 * m - 1 else 4 * m - 2
  ⟨low * scale, 4 * m * scale, (4 * m + 2) * scale, Nat.pow 2 (stepExponent + 2), m % 2 = 0⟩

def Interval.contains (i : Interval) (n d : Nat) : Bool :=
  if i.closed then i.low * d ≤ n * i.den && n * i.den ≤ i.high * d
  else i.low * d < n * i.den && n * i.den < i.high * d

/-- Ten to a possibly negative power, as a fraction. -/
def powTen (e : Int) : Nat × Nat := if e ≥ 0 then (Nat.pow 10 e.toNat, 1) else (1, Nat.pow 10 (-e).toNat)

/-- The multiple of `10 ^ e` in the interval that is nearest to its value, if there is one. -/
def Interval.onGrid? (i : Interval) (e : Int) : Option Nat :=
  let (n, d) := powTen e
  let below := i.value * d / (i.den * n)
  let rest := i.value * d - below * (i.den * n)
  let downOk := below ≠ 0 ∧ i.contains (below * n) d
  let upOk := i.contains ((below + 1) * n) d
  let preferUp := i.den * n < 2 * rest ∨ (i.den * n = 2 * rest ∧ below % 2 = 1)
  if downOk ∧ upOk then some (if preferUp then below + 1 else below)
  else if downOk then some below
  else if upOk then some (below + 1)
  else none

/-- The least `e` with `value < 10 ^ e`, searched upwards from the given exponent. -/
def Interval.magnitude (i : Interval) : Nat → Int → Int
  | 0, e => e
  | fuel + 1, e =>
    let (n, d) := powTen e
    if i.value * d < i.den * n then e else magnitude i fuel (e + 1)

/-- Try the grids of one, two, … digits in turn. -/
def Interval.search (i : Interval) (top : Int) : Nat → Nat → Decimal
  | 0, count => ⟨i.value * (powTen (count - top)).1 / (i.den * (powTen (count - top)).2), top - count⟩
  | fuel + 1, count =>
    match i.onGrid? (top - count) with
    | some digits => ⟨digits, top - count⟩
    | none => search i top fuel (count + 1)

/-- The shortest decimal that rounds to a nonzero double; seventeen digits always do. -/
def shortest (x : Double) : Decimal :=
  let i := x.interval
  let estimate : Int := ((Nat.log2 x.steps : Int) - stepExponent) * 30103 / 100000 - 1
  ((i.search (i.magnitude 6 estimate) 17 1)).normalize 20

/-- The digits around a decimal point: positional notation below `10 ^ 16` and from `10 ^ -5`. -/
def Decimal.text (d : Decimal) : String :=
  let ds := toString d.digits
  let point : Int := ds.length + d.exponent
  if 0 ≤ d.exponent ∧ point ≤ 16 then
    ds ++ String.ofList (List.replicate d.exponent.toNat '0') ++ ".0"
  else if 0 < point ∧ point ≤ 16 then
    (ds.take point.toNat).toString ++ "." ++ (ds.drop point.toNat).toString
  else if -5 < point ∧ point ≤ 0 then
    "0." ++ String.ofList (List.replicate (-point).toNat '0') ++ ds
  else
    let tail := (ds.drop 1).toString
    (ds.take 1).toString ++ (if tail.isEmpty then "" else "." ++ tail) ++ "e" ++ toString (point - 1)

/-- A finite double as text. -/
def text (x : Double) : String :=
  (if x.isNegative then "-" else "") ++ (if x.isZero then "0.0" else x.shortest.text)

end Addons.Double
