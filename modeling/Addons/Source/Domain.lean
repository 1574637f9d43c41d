import Addons.Text

/-!
# Domain names in ASCII

A label with other characters is written with `xn--` and its Punycode: its ASCII characters, then, for
each of the others in increasing order, how far to count before it is put in.
-/

namespace Addons.Domain

/-- The digit for a number below 36: letters, then figures. -/
def digit (n : Nat) : Char := Char.ofNat (if n < 26 then 97 + n else 22 + n)

def digitValue? (c : Char) : Option Nat :=
  if 'a' ≤ c ∧ c ≤ 'z' then some (c.toNat - 97)
  else if c.isDigit then some (c.toNat - 22)
  else none

/-- The weight at which a digit ends a number, for the place of the digit. -/
def threshold (place bias : Nat) : Nat :=
  if place ≤ bias then 1 else if bias + 26 ≤ place then 26 else place - bias

theorem threshold_bounds (place bias : Nat) :
    1 ≤ threshold place bias ∧ threshold place bias ≤ 26 := by
  unfold threshold
  split
  · omega
  · split <;> omega

/-- The digits of a number. -/
def digits (bias place n : Nat) : List Char :=
  let t := threshold place bias
  if n < t then [digit n]
  else digit (t + (n - t) % (36 - t)) :: digits bias (place + 36) ((n - t) / (36 - t))
termination_by n
decreasing_by
  have h := threshold_bounds place bias
  exact Nat.lt_of_le_of_lt (Nat.div_le_self _ _) (by omega)

def shrink (delta place : Nat) : Nat :=
  if 455 < delta then shrink (delta / 35) (place + 36) else place + 36 * delta / (delta + 38)
termination_by delta
decreasing_by exact Nat.div_lt_self (by omega) (by omega)

/-- The bias after a number of characters has been put in, from the last count. -/
def adapt (delta count : Nat) (first : Bool) : Nat :=
  let delta := if first then delta / 700 else delta / 2
  shrink (delta + delta / count) 0

structure Encoding where
  written : List Char
  delta : Nat := 0
  bias : Nat := 72
  /-- Characters written so far. -/
  count : Nat

/-- Pass one character of the label while putting in those numbered `n`. -/
def Encoding.pass (basic n : Nat) (e : Encoding) (c : Char) : Encoding :=
  if c.toNat < n then { e with delta := e.delta + 1 }
  else if c.toNat = n then
    { written := e.written ++ digits e.bias 36 e.delta, delta := 0, count := e.count + 1
      bias := adapt e.delta (e.count + 1) (e.count = basic) }
  else e

def isAscii (c : Char) : Bool := c.toNat < 0x80

/-- The Punycode of a label. -/
def encode (label : List Char) : List Char :=
  let basic := label.filter isAscii
  let others := ((label.filter fun c => !isAscii c).map Char.toNat).mergeSort.eraseDups
  let start : Encoding :=
    { written := if basic.isEmpty then [] else basic ++ ['-'], count := basic.length }
  (others.foldl (fun (e, last) n =>
    let e := { e with delta := e.delta + (n - last) * (e.count + 1) }
    let e := label.foldl (Encoding.pass basic.length n) e
    ({ e with delta := e.delta + 1 }, n + 1)) (start, 0x80)).1.written

/-- A number from its digits, and the digits after it. -/
def number? (bias : Nat) : (place weight value : Nat) → List Char → Option (Nat × List Char)
  | _, _, _, [] => none
  | place, weight, value, c :: rest => do
    let d ← digitValue? c
    let t := threshold place bias
    if d < t then some (value + d * weight, rest)
    else number? bias (place + 36) (weight * (36 - t)) (value + d * weight) rest

/-- Put in the characters that digits count out. The fuel bounds their number. -/
def insertAll? : Nat → (n index bias : Nat) → (out : List Char) → List Char → Option (List Char)
  | _, _, _, _, out, [] => some out
  | 0, _, _, _, _, _ => none
  | fuel + 1, n, index, bias, out, ds => do
    let (step, rest) ← number? bias 36 1 0 ds
    let total := index + step
    let count := out.length + 1
    let n := n + total / count
    let place := total % count
    if n ≤ 0x10FFFF ∧ ¬(0xD800 ≤ n ∧ n < 0xE000) then
      insertAll? fuel n (place + 1) (adapt step count (index = 0))
        (out.take place ++ Char.ofNat n :: out.drop place) rest
    else none

/-- The label of its Punycode. -/
def decode? (code : List Char) : Option (List Char) :=
  match Text.splitLast? '-' code with
  | some ([], _) => none
  | some (basic, ds) => insertAll? ds.length 0x80 0 72 basic ds
  | none => insertAll? code.length 0x80 0 72 [] code

/-- Characters that no name may hold. -/
def isForbidden (c : Char) : Bool :=
  let n := c.toNat
  n ≤ 0x20 || n = 0x7F || ['%', '#', '/', ':', '<', '>', '?', '@', '[', '\\', ']', '^', '|'].contains c
    || (0x80 ≤ n && n ≤ 0xA0) || (0xE000 ≤ n && n ≤ 0xF8FF) || (0xFFF9 ≤ n && n ≤ 0xFFFF)
    || 0xE0000 ≤ n

/-- Characters that names leave out: the soft hyphen, invisible joints and variation marks. -/
def isDropped (c : Char) : Bool :=
  let n := c.toNat
  n = 0xAD || n = 0x200B || n = 0x2060 || n = 0xFEFF || (0xFE00 ≤ n && n ≤ 0xFE0F)

/-- The character as names write it: in lower case, and at its usual width. -/
def fold (c : Char) : Char :=
  let n := c.toNat
  let wide := 0xFF01 ≤ n && n ≤ 0xFF5E
  let n := if wide then n - 0xFEE0 else n
  if n = 0x3002 || n = 0xFF61 then '.'
  else if 0x41 ≤ n && n ≤ 0x5A then Char.ofNat (n + 0x20)
  else if 0xC0 ≤ n && n ≤ 0xDE && n != 0xD7 then Char.ofNat (n + 0x20)
  else if 0x391 ≤ n && n ≤ 0x3AB && n != 0x3A2 then Char.ofNat (n + 0x20)
  else if 0x400 ≤ n && n ≤ 0x40F then Char.ofNat (n + 0x50)
  else if 0x410 ≤ n && n ≤ 0x42F then Char.ofNat (n + 0x20)
  else if 0x100 ≤ n && n ≤ 0x137 && n != 0x130 && n % 2 = 0 then Char.ofNat (n + 1)
  else if 0x139 ≤ n && n ≤ 0x148 && n % 2 = 1 then Char.ofNat (n + 1)
  else if 0x14A ≤ n && n ≤ 0x177 && n % 2 = 0 then Char.ofNat (n + 1)
  else Char.ofNat n

/-- A label in ASCII. One that claims to be Punycode has to be that of a label which is not ASCII. -/
def label? (cs : List Char) : Option (List Char) :=
  match cs with
  | 'x' :: 'n' :: '-' :: '-' :: code => do
    let plain ← decode? code
    if plain.all isAscii || plain.any (fun c => isForbidden c || isDropped c || fold c != c) then none
    else some cs
  | _ => if cs.all isAscii then some cs else some ("xn--".toList ++ encode cs)

/-- A domain name in ASCII. -/
def ascii? (name : List Char) : Option (List Char) := do
  let cs := (name.filter fun c => !isDropped c).map fold
  if cs.any isForbidden then none
  else return ['.'].intercalate (← (Text.splitAll '.' cs).mapM label?)

end Addons.Domain
