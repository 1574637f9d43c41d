import Addons.Json.Basic
import Addons.Yaml.Cursor

/-!
# What a plain scalar means

A plain scalar is null, a truth value, a number or text by its characters alone.
-/

namespace Addons.Yaml.Scalar

def isNull (cs : List Char) : Bool :=
  ["null", "Null", "NULL", "~"].contains (String.ofList cs)

def bool? (cs : List Char) : Option Bool :=
  if ["true", "True", "TRUE"].contains (String.ofList cs) then some true
  else if ["false", "False", "FALSE"].contains (String.ofList cs) then some false
  else none

def isSign (c : Char) : Bool := c = '+' || c = '-'

def startsWithSign : List Char → Bool
  | c :: _ => isSign c
  | [] => false

/-- Two or more digits of which the first is zero; these are text, not a number. -/
def isZeroPadded (cs : List Char) : Bool :=
  let ds := if startsWithSign cs then cs.drop 1 else cs
  match ds with
  | '0' :: rest => !rest.isEmpty && rest.all Char.isDigit
  | _ => false

/-- The number of one or more digits of a base, if it is at most `bound`. -/
def digits? (base bound : Nat) (cs : List Char) : Option Nat :=
  if cs.isEmpty then none
  else do
    let n ← cs.foldl (fun acc c => do
      let n ← acc
      let v ← Text.hexValue? c
      if v < base then some (n * base + v) else none) (some 0)
    if n ≤ bound then some n else none

/-- The number after a base mark such as `0x`. -/
def based? (bound : Nat) : List Char → Option Nat
  | '0' :: 'x' :: rest => digits? 16 bound rest
  | '0' :: 'o' :: rest => digits? 8 bound rest
  | '0' :: 'b' :: rest => digits? 2 bound rest
  | _ => none

/-- A number without a minus sign, at most `bound`. -/
def unsigned? (bound : Nat) (cs : List Char) : Option Nat :=
  let body := match cs with
    | '+' :: rest => rest
    | _ => cs
  match based? bound body with
  | some n => some n
  | none => if startsWithSign body || isZeroPadded cs then none else digits? 10 bound body

/-- The magnitude, at most `bound`, of a number after its minus sign. -/
def negative? (bound : Nat) (cs : List Char) : Option Nat :=
  match cs with
  | '-' :: body =>
    match based? bound body with
    | some n => some n
    | none => if isZeroPadded cs then none else digits? 10 bound body
  | _ => none

/-- An integer of 64 bits. One that only fits 128 bits is refused as `some none`; a larger one is no
integer at all. -/
def int? (cs : List Char) : Option (Option Int) :=
  match unsigned? (Nat.pow 2 64 - 1) cs with
  | some n => some (some n)
  | none =>
    match negative? (Nat.pow 2 63) cs with
    | some n => some (some (-(n : Int)))
    | none =>
      if (unsigned? (Nat.pow 2 128 - 1) cs).isSome || (negative? (Nat.pow 2 127) cs).isSome then some none
      else none

/-- Digits with an optional point and exponent. -/
def unsignedFloat? (cs : List Char) : Option Double := do
  let whole := cs.takeWhile Char.isDigit
  let rest := cs.dropWhile Char.isDigit
  let (part, rest) : List Char × List Char :=
    match rest with
    | '.' :: rest => (rest.takeWhile Char.isDigit, rest.dropWhile Char.isDigit)
    | rest => ([], rest)
  if whole.isEmpty && part.isEmpty then none
  let exponent : Int ←
    match rest with
    | [] => some 0
    | c :: rest =>
      if c = 'e' ∨ c = 'E' then
        let ds := if startsWithSign rest then rest.drop 1 else rest
        if ds.isEmpty || !ds.all Char.isDigit then none
        else
          let n : Nat := ds.foldl (fun n d => if n ≤ 1000000 then n * 10 + (d.toNat - 48) else n) 0
          some (if rest.head? = some '-' then -(n : Int) else n)
      else none
  let digits := (whole ++ part).foldl (fun n d => n * 10 + (d.toNat - 48)) 0
  Double.ofDecimal? digits (exponent - part.length)

/-- A finite number with a point or an exponent, or too large for an integer. -/
def float? (cs : List Char) : Option Double :=
  match cs with
  | '+' :: rest => if startsWithSign rest then none else unsignedFloat? rest
  | '-' :: rest => (unsignedFloat? rest).map Double.neg
  | _ => unsignedFloat? cs

/-- Infinity or not a number, which JSON writes as null. -/
def isNotFinite (cs : List Char) : Bool :=
  [".inf", ".Inf", ".INF", "+.inf", "+.Inf", "+.INF", "-.inf", "-.Inf", "-.INF", ".nan", ".NaN",
   ".NAN"].contains (String.ofList cs)

/-- The JSON value of a plain scalar without a tag. -/
def plainValue? (cs : List Char) : Option Json :=
  if cs.isEmpty || isNull cs then some .null
  else
    match bool? cs with
    | some b => some (.bool b)
    | none =>
      match int? cs with
      | some (some i) => some (Json.ofInt i)
      | some none => none
      | none =>
        if isZeroPadded cs then some (.str (String.ofList cs))
        else if isNotFinite cs then some .null
        else
          match float? cs with
          | some x => some (.num (.float x))
          | none => some (.str (String.ofList cs))

/-- Whether plain text would read back as something else than itself. -/
def readsAsOther (cs : List Char) : Bool :=
  cs.isEmpty || isNull cs || (bool? cs).isSome || (int? cs).isSome || isZeroPadded cs || isNotFinite cs
    || (float? cs).isSome

end Addons.Yaml.Scalar
