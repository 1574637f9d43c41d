import Addons.Text
import Addons.Time.Span

/-!
# Instants

A point in time is a second since 1970 in the proleptic Gregorian calendar, in UTC, and the nanoseconds into
it. A leap second is written as second 60 of any minute; it is kept as the second billion of nanoseconds of
the second before it. Instants are read from and written as RFC 3339 text.
-/

namespace Addons

/-- A point in time. -/
structure Instant where
  /-- Whole seconds since the start of 1970. -/
  seconds : Int
  /-- Nanoseconds into the second, and from a billion on into the leap second that follows it. -/
  nanos : Nat := 0
  deriving DecidableEq, Repr, Inhabited

namespace Instant

/-- The nanoseconds of a second. -/
def billion : Nat := 1000000000

/-- Seconds come first; a leap second is between the second before it and the next. -/
def le (a b : Instant) : Bool := a.seconds < b.seconds || a.seconds = b.seconds && a.nanos ≤ b.nanos

instance : LE Instant := ⟨fun a b => a.le b⟩

instance (a b : Instant) : Decidable (a ≤ b) := inferInstanceAs (Decidable (a.le b))

def max (a b : Instant) : Instant := if a ≤ b then b else a

/-- Whether it is within a leap second. -/
def isLeap (t : Instant) : Bool := billion ≤ t.nanos

def subsecond (t : Instant) : Nat := t.nanos % billion

/-- The start of the second. -/
def truncate (t : Instant) : Instant := ⟨t.seconds, if t.isLeap then billion else 0⟩

/-- Days from 1970-01-01 to a date. The year is taken to begin in March, so that a leap day ends it. -/
def daysOfDate (year month day : Int) : Int :=
  let y := if month ≤ 2 then year - 1 else year
  let era := y.fdiv 400
  let yearOfEra := y - era * 400
  let dayOfYear := (153 * (if month > 2 then month - 3 else month + 9) + 2).fdiv 5 + day - 1
  let dayOfEra := yearOfEra * 365 + yearOfEra.fdiv 4 - yearOfEra.fdiv 100 + dayOfYear
  era * 146097 + dayOfEra - 719468

/-- Year, month and day of a day counted from 1970-01-01. -/
def dateOfDays (days : Int) : Int × Int × Int :=
  let z := days + 719468
  let era := z.fdiv 146097
  let dayOfEra := z - era * 146097
  let yearOfEra :=
    (dayOfEra - dayOfEra.fdiv 1460 + dayOfEra.fdiv 36524 - dayOfEra.fdiv 146096).fdiv 365
  let dayOfYear := dayOfEra - (365 * yearOfEra + yearOfEra.fdiv 4 - yearOfEra.fdiv 100)
  let m := (5 * dayOfYear + 2).fdiv 153
  let day := dayOfYear - (153 * m + 2).fdiv 5 + 1
  let month := if m < 10 then m + 3 else m - 9
  (yearOfEra + era * 400 + (if month ≤ 2 then 1 else 0), month, day)

/-- A number with leading zeros up to a width. -/
def padded (width n : Nat) : String :=
  let ds := toString n
  String.ofList (List.replicate (width - ds.length) '0') ++ ds

/-- Four digits; a year outside of these has its sign. -/
def yearText (y : Int) : String :=
  if 0 ≤ y ∧ y ≤ 9999 then padded 4 y.toNat
  else (if y < 0 then "-" else "+") ++ padded 4 y.natAbs

/-- Date and time of day to whole seconds. -/
def dateTimeText (t : Instant) : String :=
  let days := t.seconds.fdiv 86400
  let time := (t.seconds.fmod 86400).toNat
  let (y, m, d) := dateOfDays days
  yearText y ++ "-" ++ padded 2 m.toNat ++ "-" ++ padded 2 d.toNat ++ "T" ++ padded 2 (time / 3600)
    ++ ":" ++ padded 2 (time / 60 % 60)
    ++ ":" ++ padded 2 (time % 60 + if t.isLeap then 1 else 0)

/-- Text in whole seconds. -/
def textSeconds (t : Instant) : String := t.dateTimeText ++ "Z"

/-- The part of a second in as many groups of three decimals as it needs. -/
def decimalsText (t : Instant) : String :=
  let n := t.subsecond
  if n = 0 then ""
  else if n % 1000000 = 0 then "." ++ padded 3 (n / 1000000)
  else if n % 1000 = 0 then "." ++ padded 6 (n / 1000)
  else "." ++ padded 9 n

/-- Text with all decimals. -/
def textFull (t : Instant) : String := t.dateTimeText ++ t.decimalsText ++ "Z"

/-- Text with all decimals and the distance from UTC. -/
def textOffset (t : Instant) : String := t.dateTimeText ++ t.decimalsText ++ "+00:00"

/-- The first second of the calendar. -/
def first : Int := daysOfDate (-262143) 1 1 * 86400

/-- The last second of the calendar. -/
def last : Int := daysOfDate 262143 1 1 * 86400 - 1

/-- Whether an instant is within the calendar. -/
def inCalendar (t : Instant) : Bool := first ≤ t.seconds && t.seconds ≤ last

/-- Add a span. A sum that leaves the leap second it starts in is counted from the second before. -/
def add (t : Instant) (s : Span) : Instant :=
  let n := t.nanos + s.nanos
  if t.isLeap then
    if n < 2 * billion then ⟨t.seconds, n⟩
    else ⟨t.seconds + ((n - billion) / billion : Nat), (n - billion) % billion⟩
  else ⟨t.seconds + (n / billion : Nat), n % billion⟩

/-- The number of one to `max` digits at the front. -/
def number? (max : Nat) (cs : List Char) : Option (Nat × List Char) :=
  let ds := (cs.take max).takeWhile Char.isDigit
  if ds.isEmpty then none
  else some (ds.foldl (fun n c => n * 10 + (c.toNat - 48)) 0, cs.drop ds.length)

/-- A field of up to two digits, white space before it left out. -/
def field? (cs : List Char) : Option (Nat × List Char) := number? 2 (Text.trimStart cs)

/-- A year of up to four digits, or of any number of digits after a sign. -/
def year? (cs : List Char) : Option (Int × List Char) :=
  match Text.trimStart cs with
  | '-' :: rest => (number? rest.length rest).map fun r => (-(r.1 : Int), r.2)
  | '+' :: rest => (number? rest.length rest).map fun r => ((r.1 : Int), r.2)
  | rest => (number? 4 rest).map fun r => ((r.1 : Int), r.2)

/-- A given character, white space before it left out. -/
def mark? (c : Char) (cs : List Char) : Option (List Char) :=
  match Text.trimStart cs with
  | d :: rest => if d = c then some rest else none
  | [] => none

/-- The decimals after a point, in nanoseconds; beyond nine they are cut. -/
def decimals? (cs : List Char) : Option (Nat × List Char) :=
  match cs with
  | '.' :: rest => do
    let (n, after) ← number? 9 rest
    let used := rest.length - after.length
    return (n * Nat.pow 10 (9 - used), after.dropWhile Char.isDigit)
  | _ => some (0, cs)

/-- The distance from UTC in seconds: `Z`, `UTC`, or hours and minutes after a sign. -/
def offset? (cs : List Char) : Option (Int × List Char) :=
  let numeric (sign : Int) (rest : List Char) : Option (Int × List Char) :=
    match rest with
    | h1 :: h2 :: rest =>
      match rest.dropWhile fun c => c = ':' || Text.isBlank c with
      | m1 :: m2 :: rest =>
        if h1.isDigit && h2.isDigit && m1.isDigit && m2.isDigit && m1.toNat < 54 then
          let value (a b : Char) : Int := ((a.toNat - 48) * 10 + (b.toNat - 48) : Nat)
          some (sign * (value h1 h2 * 3600 + value m1 m2 * 60), rest)
        else none
      | _ => none
    | _ => none
  match cs with
  | a :: b :: c :: rest =>
    if a.toUpper = 'U' ∧ b.toUpper = 'T' ∧ c.toUpper = 'C' then some (0, rest) else signed numeric cs
  | _ => signed numeric cs
where
  /-- A zone that starts with its sign or is `Z`. -/
  signed (numeric : Int → List Char → Option (Int × List Char)) :
      List Char → Option (Int × List Char)
    | 'Z' :: rest => some (0, rest)
    | 'z' :: rest => some (0, rest)
    | '+' :: rest => numeric 1 rest
    | '-' :: rest => numeric (-1) rest
    | '−' :: rest => numeric (-1) rest
    | _ => none

def isLeapYear (y : Int) : Bool := y % 4 = 0 && (y % 100 != 0 || y % 400 = 0)

def daysInMonth (y : Int) (m : Nat) : Nat :=
  if m = 2 then (if isLeapYear y then 29 else 28)
  else if m = 4 || m = 6 || m = 9 || m = 11 then 30
  else 31

/-- The instant of an RFC 3339 text. The date and the time may be parted by a blank, fields may have
one digit, and white space may stand between all parts. -/
def parse? (text : String) : Option Instant := do
  let (year, cs) ← year? text.toList
  let (month, cs) ← field? (← mark? '-' cs)
  let (day, cs) ← field? (← mark? '-' cs)
  let cs ← match cs with
    | c :: cs => if c = 'T' ∨ c = 't' ∨ c = ' ' then some cs else none
    | [] => none
  let (hour, cs) ← field? cs
  let (minute, cs) ← field? (← mark? ':' cs)
  let (second, cs) ← field? (← mark? ':' cs)
  let (nanos, cs) ← decimals? cs
  let (offset, cs) ← offset? (Text.trimStart cs)
  if !(Text.trimStart cs).isEmpty then none
  if !(-262143 ≤ year ∧ year ≤ 262142 ∧ 1 ≤ month ∧ month ≤ 12 ∧ 1 ≤ day
      ∧ day ≤ daysInMonth year month ∧ hour ≤ 23 ∧ minute ≤ 59 ∧ second ≤ 60
      ∧ offset.natAbs < 86400) then none
  let whole := if second = 60 then 59 else second
  let secs : Int := daysOfDate year month day * 86400 + hour * 3600 + minute * 60 + whole - offset
  let t : Instant := ⟨secs, if second = 60 then billion + nanos else nanos⟩
  if t.inCalendar then some t else none

end Instant

end Addons
