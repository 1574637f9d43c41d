/-!
# Finite doubles

Double-precision numbers by their 64 bits, and rounding to them in exact natural arithmetic. The
magnitude of a finite double is `significand * 2 ^ unit` in steps of `2 ^ -1074`, the smallest double.
-/

namespace Addons

/-- A double-precision number, by its bits. -/
structure Double where
  bits : UInt64
  deriving DecidableEq, Repr, Inhabited

namespace Double

/-- Doubles count in steps of `2 ^ -stepExponent`. -/
def stepExponent : Nat := 1074

def isNegative (x : Double) : Bool := x.bits >>> 63 != 0

def exponentField (x : Double) : Nat := ((x.bits >>> 52) &&& 0x7ff).toNat

def fractionField (x : Double) : Nat := (x.bits &&& 0xfffffffffffff).toNat

/-- The 53-bit significand, with its leading one unless `x` is subnormal. -/
def significand (x : Double) : Nat :=
  if x.exponentField = 0 then x.fractionField else Nat.pow 2 52 + x.fractionField

/-- The power of two, in steps, that the significand counts. -/
def unit (x : Double) : Nat := x.exponentField - 1

/-- The magnitude in steps of `2 ^ -1074`. -/
def steps (x : Double) : Nat := x.significand * Nat.pow 2 x.unit

def isZero (x : Double) : Bool := x.steps = 0

/-- Numeric equality: the two zeros are one number. -/
def same (x y : Double) : Bool := x = y || (x.isZero && y.isZero)

def neg (x : Double) : Double := ⟨x.bits ^^^ 0x8000000000000000⟩

def zero : Double := ⟨0⟩

/-- The natural number nearest to `n / d`, of two equally near the even one. -/
def roundDiv (n d : Nat) : Nat :=
  let q := n / d
  let r := n % d
  if 2 * r < d then q
  else if d < 2 * r then q + 1
  else if q % 2 = 0 then q
  else q + 1

/-- The double with the given significand and unit, where `q < Nat.pow 2 52` only for unit zero. -/
def pack (q unit : Nat) : Double :=
  ⟨UInt64.ofNat (if q < Nat.pow 2 52 then q else (unit + 1) * Nat.pow 2 52 + (q - Nat.pow 2 52))⟩

/-- The double nearest to `n / d`, ties to the even significand; none if that is not finite. -/
def ofQuotient? (n d : Nat) : Option Double :=
  let scaled := n * Nat.pow 2 stepExponent
  let unit := (Nat.log2 (scaled / d) + 1) - 53
  let q := roundDiv scaled (d * Nat.pow 2 unit)
  let (q, unit) := if q = Nat.pow 2 53 then (Nat.pow 2 52, unit + 1) else (q, unit)
  if unit ≤ 2045 then some (pack q unit) else none

/-- The double nearest to a natural number. -/
def ofNat? (n : Nat) : Option Double := ofQuotient? n 1

/-- The nearest double to a product of magnitudes. -/
def mul? (x y : Double) : Option Double :=
  ofQuotient? (x.steps * y.steps) (Nat.pow 2 (2 * stepExponent))

/-- The nearest double to a quotient of magnitudes. -/
def div? (x y : Double) : Option Double := ofQuotient? x.steps y.steps

/-- The double nearest to `digits * 10 ^ exponent`; none if that is not finite. Powers so large or so
small that the answer no longer depends on them are cut short first. -/
def ofDecimal? (digits : Nat) (exponent : Int) : Option Double :=
  if digits = 0 then some zero
  else
    let size : Int := Nat.log2 digits / 3 + 1
    if exponent > 400 then none
    else if exponent + size < -400 then some zero
    else if exponent ≥ 0 then ofQuotient? (digits * Nat.pow 10 exponent.toNat) 1
    else ofQuotient? digits (Nat.pow 10 (-exponent).toNat)

end Double

end Addons
