import Addons.Text

/-!
# Spans of time

A span is written as numbers with units (`1h 30m`) and kept in nanoseconds. Its seconds fit 64 bits.
-/

namespace Addons

/-- A length of time in nanoseconds. -/
structure Span where
  nanos : Nat
  deriving DecidableEq, Repr, Inhabited

namespace Span

def ofSeconds (n : Nat) : Span := ⟨n * 1000000000⟩

def ofMillis (n : Nat) : Span := ⟨n * 1000000⟩

def seconds (s : Span) : Nat := s.nanos / 1000000000

def subsecond (s : Span) : Nat := s.nanos % 1000000000

/-- Whole milliseconds. -/
def millis (s : Span) : Nat := s.nanos / 1000000

/-- What a unit counts: nanoseconds, or whole seconds. -/
inductive Unit where
  | nanos (n : Nat)
  | minute
  | seconds (n : Nat)

/-- The unit of a name. A month is 30.44 days and a year is 365.25 days. -/
def Unit.ofName? (name : String) : Option Unit :=
  if ["nanos", "nsec", "ns"].contains name then some (.nanos 1)
  else if ["usec", "us", "µs"].contains name then some (.nanos 1000)
  else if ["millis", "msec", "ms"].contains name then some (.nanos 1000000)
  else if ["seconds", "second", "secs", "sec", "s"].contains name then some (.seconds 1)
  else if ["minutes", "minute", "min", "mins", "m"].contains name then some .minute
  else if ["hours", "hour", "hrs", "hr", "h"].contains name then some (.seconds 3600)
  else if ["days", "day", "d"].contains name then some (.seconds 86400)
  else if ["weeks", "week", "wks", "wk", "w"].contains name then some (.seconds (7 * 86400))
  else if ["months", "month", "M"].contains name then some (.seconds 2630016)
  else if ["years", "year", "yrs", "yr", "y"].contains name then some (.seconds 31557600)
  else none

/-- A count that fits 64 bits. -/
def word? (n : Nat) : Option Nat := if n < Nat.pow 2 64 then some n else none

/-- Add seconds and nanoseconds, each within 64 bits. -/
def add? (s : Span) (secs nanos : Nat) : Option Span := do
  let nanos ← word? (s.subsecond + nanos)
  let secs ← word? (s.seconds + secs + nanos / 1000000000)
  return ⟨secs * 1000000000 + nanos % 1000000000⟩

/-- Add `n` units and the fraction `num / den` of one. A fraction of an hour or of a longer unit is cut
to whole seconds, one of a shorter unit to nanoseconds. -/
def addUnits? (s : Span) (u : Unit) (n : Nat) (frac : Option (Nat × Nat)) : Option Span := do
  let whole ← match u with
    | .nanos k => do s.add? 0 (← word? (n * k))
    | .minute => do s.add? (← word? (n * 60)) 0
    | .seconds k => do s.add? (← word? (n * k)) 0
  match frac with
  | none => return whole
  | some (num, den) =>
    match u with
    | .nanos k => do whole.add? 0 ((← word? (num * k)) / den)
    | .minute => do whole.add? 0 ((← word? (num * 60000000000)) / den)
    | .seconds 1 => do whole.add? 0 ((← word? (num * 1000000000)) / den)
    | .seconds k => do whole.add? ((← word? (num * k)) / den) 0

def isUnitChar (c : Char) : Bool := c.isAlpha || c = 'µ'

/-- Append decimal digits, white space between them left out; the rest starts at the first other
character. -/
def digits? : Nat → List Char → Option (Nat × List Char)
  | n, [] => some (n, [])
  | n, c :: cs =>
    if c.isDigit then do digits? (← word? (n * 10 + (c.toNat - 48))) cs
    else if Text.isBlank c then digits? n cs
    else some (n, c :: cs)

/-- The digits after a point as a fraction of a power of ten. -/
def fraction? : Nat → Nat → List Char → Option (Nat × Nat × List Char)
  | num, den, [] => some (num, den, [])
  | num, den, c :: cs =>
    if c.isDigit then do
      fraction? (← word? (num * 10 + (c.toNat - 48))) (← word? (den * 10)) cs
    else if Text.isBlank c then fraction? num den cs
    else some (num, den, c :: cs)

/-- One number with its unit, and what follows. -/
def item? (s : Span) (cs : List Char) : Option (Span × List Char) := do
  let first ← cs.head?
  if !first.isDigit then none
  let (n, rest) ← digits? 0 cs
  let (frac, rest) ← match rest with
    | '.' :: rest => do
      let (num, den, rest) ← fraction? 0 1 rest
      if den = 1 then none else some (some (num, den), rest)
    | rest => some (none, rest)
  let name := rest.takeWhile isUnitChar
  let after := rest.dropWhile isUnitChar
  let unit ← Unit.ofName? (String.ofList name)
  match after with
  | [] => pure ()
  | c :: _ => if c.isDigit || Text.isBlank c then pure () else none
  return (← s.addUnits? unit n frac, Text.trimStart after)

/-- Numbers with units one after another; the fuel bounds their number. -/
def items? : Nat → Span → List Char → Option Span
  | 0, _, _ => none
  | fuel + 1, s, cs => do
    let (s, rest) ← s.item? cs
    if rest.isEmpty then return s else items? fuel s rest

/-- The span that a text says. -/
def parse? (text : String) : Option Span :=
  if text = "0" then some ⟨0⟩
  else
    let cs := Text.trimStart text.toList
    items? (cs.length + 1) ⟨0⟩ cs

/-- Parts of a span with their units, the longest unit first. -/
def parts (s : Span) : List (Nat × String) :=
  let plural (n : Nat) (name : String) : Nat × String := (n, if n = 1 then name else name ++ "s")
  let year := s.seconds % 31557600
  let month := year % 2630016
  let day := month % 86400
  [plural (s.seconds / 31557600) "year", plural (year / 2630016) "month", plural (month / 86400) "day",
   (day / 3600, "h"), (day % 3600 / 60, "m"), (day % 60, "s"),
   (s.subsecond / 1000000, "ms"), (s.subsecond / 1000 % 1000, "us"), (s.subsecond % 1000, "ns")]

/-- The text of a span: its nonzero parts. -/
def text (s : Span) : String :=
  if s.nanos = 0 then "0s"
  else " ".intercalate ((s.parts.filter fun p => p.1 != 0).map fun p => toString p.1 ++ p.2)

end Span

end Addons
