import Addons.Json.Basic
import Addons.Text

/-!
# Reading JSON text

`Json.parse?` reads one value. An integer of 64 bits keeps its value, any other number is a double:
the leading digits that fit 64 bits, scaled by a power of ten in double arithmetic.
-/

namespace Addons.Json.Reader

def isSpace (c : Char) : Bool := c = ' ' || c = '\n' || c = '\t' || c = '\r'

def skipSpace (cs : List Char) : List Char := cs.dropWhile isSpace

def digitValue (c : Char) : Nat := c.toNat - 48

/-- Four hexadecimal digits. -/
def hexUnit : List Char → Option (Nat × List Char)
  | a :: b :: c :: d :: rest => do
    let a ← Text.hexValue? a
    let b ← Text.hexValue? b
    let c ← Text.hexValue? c
    let d ← Text.hexValue? d
    return (((a * 16 + b) * 16 + c) * 16 + d, rest)
  | _ => none

/-- The character of a `\u` escape; one above U+FFFF is written as two surrogates. -/
def unicodeEscape (cs : List Char) : Option (Char × List Char) := do
  let (high, rest) ← hexUnit cs
  if 0xD800 ≤ high ∧ high < 0xDC00 then
    match rest with
    | '\\' :: 'u' :: more =>
      let (low, rest) ← hexUnit more
      if 0xDC00 ≤ low ∧ low < 0xE000 then
        return (Char.ofNat (0x10000 + (high - 0xD800) * 0x400 + (low - 0xDC00)), rest)
      else none
    | _ => none
  else if 0xDC00 ≤ high ∧ high < 0xE000 then none
  else return (Char.ofNat high, rest)

/-- The characters up to the closing quote, last first. The fuel bounds their number. -/
def stringBody : Nat → List Char → List Char → Option (String × List Char)
  | 0, _, _ => none
  | fuel + 1, acc, cs =>
    match cs with
    | [] => none
    | '"' :: rest => some (String.ofList acc.reverse, rest)
    | '\\' :: 'u' :: rest => do
      let (c, rest) ← unicodeEscape rest
      stringBody fuel (c :: acc) rest
    | '\\' :: e :: rest =>
      let plain : Option Char :=
        match e with
        | '"' => some '"'
        | '\\' => some '\\'
        | '/' => some '/'
        | 'b' => some '\x08'
        | 'f' => some '\x0c'
        | 'n' => some '\n'
        | 'r' => some '\r'
        | 't' => some '\t'
        | _ => none
      match plain with
      | some c => stringBody fuel (c :: acc) rest
      | none => none
    | c :: rest => if c.toNat < 32 then none else stringBody fuel (c :: acc) rest

/-- The greatest unsigned number of 64 bits. -/
def maxWord : Nat := Nat.pow 2 64 - 1

/-- Add digits while the number fits 64 bits; the rest starts at the first digit that does not. -/
def takeDigits : Nat → List Char → Nat × Nat × List Char
  | n, [] => (n, 0, [])
  | n, c :: cs =>
    if c.isDigit ∧ n * 10 + digitValue c ≤ maxWord then
      let (m, count, rest) := takeDigits (n * 10 + digitValue c) cs
      (m, count + 1, rest)
    else (n, 0, c :: cs)

/-- Divide by powers of ten until the exponent is used up. -/
def divideTens : Nat → Double → Nat → Option Double
  | 0, x, _ => some x
  | fuel + 1, x, e =>
    if e ≤ 308 then do x.div? (← Double.ofNat? (Nat.pow 10 e))
    else if x.isZero then some x
    else do divideTens fuel (← x.div? (← Double.ofNat? (Nat.pow 10 308))) (e - 308)

/-- A significand times a power of ten, each step rounded to a double. -/
def scale (significand : Nat) (exponent : Int) : Option Double := do
  let x ← Double.ofNat? significand
  if exponent < 0 then divideTens 5 x (-exponent).toNat
  else if exponent ≤ 308 then x.mul? (← Double.ofNat? (Nat.pow 10 exponent.toNat))
  else if x.isZero then some x
  else none

def signed (negative : Bool) (x : Double) : Number := .float (if negative then x.neg else x)

/-- The optional exponent part after the digits of a number. -/
def exponentPart (negative : Bool) (significand : Nat) (exponent : Int) (cs : List Char) :
    Option (Number × List Char) :=
  let finish (e : Int) (rest : List Char) : Option (Number × List Char) := do
    return (signed negative (← scale significand e), rest)
  match cs with
  | c :: rest =>
    if c = 'e' ∨ c = 'E' then
      let (down, rest) : Bool × List Char :=
        match rest with
        | '+' :: r => (false, r)
        | '-' :: r => (true, r)
        | r => (false, r)
      let ds := rest.takeWhile Char.isDigit
      let e : Nat := ds.foldl (fun n d => if n ≤ 400000 then n * 10 + digitValue d else n) 0
      if ds.isEmpty then none
      else finish (if down then exponent - e else exponent + e) (rest.dropWhile Char.isDigit)
    else finish exponent cs
  | [] => finish exponent []

/-- What follows the integer digits of a number: a fraction, an exponent, or nothing. -/
def afterInteger (negative : Bool) (significand skipped : Nat) (cs : List Char) :
    Option (Number × List Char) :=
  match cs with
  | '.' :: rest =>
    let (m, count, rest') := takeDigits significand rest
    let more := rest'.dropWhile Char.isDigit
    if count = 0 ∧ more.length = rest.length then none
    else exponentPart negative m (skipped - count) more
  | c :: _ =>
    if c = 'e' ∨ c = 'E' then exponentPart negative significand skipped cs
    else plain
  | [] => plain
where
  /-- A number of digits only. -/
  plain : Option (Number × List Char) :=
    if skipped ≠ 0 then do return (signed negative (← scale significand skipped), cs)
    else if !negative then some (.int significand, cs)
    else if 0 < significand ∧ significand ≤ Nat.pow 2 63 then some (.int (-significand), cs)
    else do return (signed true (← Double.ofNat? significand), cs)

/-- A number without its sign. -/
def magnitude (negative : Bool) (cs : List Char) : Option (Number × List Char) :=
  match cs with
  | '0' :: rest =>
    if (rest.head?.map Char.isDigit).getD false then none else afterInteger negative 0 0 rest
  | c :: _ =>
    if c.isDigit then
      let (m, _, rest) := takeDigits 0 cs
      afterInteger negative m (rest.takeWhile Char.isDigit).length (rest.dropWhile Char.isDigit)
    else none
  | [] => none

def number : List Char → Option (Number × List Char)
  | '-' :: rest => magnitude true rest
  | cs => magnitude false cs

mutual

/-- A value. The fuel bounds the nesting and the number of items. -/
def value : Nat → List Char → Option (Json × List Char)
  | 0, _ => none
  | fuel + 1, cs =>
    match skipSpace cs with
    | 'n' :: 'u' :: 'l' :: 'l' :: rest => some (.null, rest)
    | 't' :: 'r' :: 'u' :: 'e' :: rest => some (.bool true, rest)
    | 'f' :: 'a' :: 'l' :: 's' :: 'e' :: rest => some (.bool false, rest)
    | '"' :: rest => (stringBody (rest.length + 1) [] rest).map fun r => (.str r.1, r.2)
    | '[' :: rest =>
      match skipSpace rest with
      | ']' :: rest => some (.arr [], rest)
      | rest => items fuel [] rest
    | '\x7b' :: rest =>
      match skipSpace rest with
      | '\x7d' :: rest => some (.obj [], rest)
      | rest => members fuel [] rest
    | rest => (number rest).map fun r => (.num r.1, r.2)

/-- The rest of an array, from an item on. -/
def items : Nat → List Json → List Char → Option (Json × List Char)
  | 0, _, _ => none
  | fuel + 1, acc, cs => do
    let (v, rest) ← value fuel cs
    match skipSpace rest with
    | ',' :: rest => items fuel (v :: acc) rest
    | ']' :: rest => return (.arr (v :: acc).reverse, rest)
    | _ => none

/-- The rest of an object, from a key on; of equal keys the last counts. -/
def members : Nat → Fields → List Char → Option (Json × List Char)
  | 0, _, _ => none
  | fuel + 1, acc, cs =>
    match skipSpace cs with
    | '"' :: rest => do
      let (k, rest) ← stringBody (rest.length + 1) [] rest
      match skipSpace rest with
      | ':' :: rest =>
        let (v, rest) ← value fuel rest
        match skipSpace rest with
        | ',' :: rest => members fuel (Table.insert k v acc) rest
        | '\x7d' :: rest => return (.obj (Table.insert k v acc), rest)
        | _ => none
      | _ => none
    | _ => none

end

end Reader

/-- The value a text holds, if it holds exactly one. -/
def parse? (text : String) : Option Json :=
  let cs := text.toList
  match Reader.value (cs.length + 1) cs with
  | some (v, rest) => if (Reader.skipSpace rest).isEmpty then some v else none
  | none => none

end Addons.Json
