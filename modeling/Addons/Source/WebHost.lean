import Addons.Source.Domain

/-!
# Hosts

The host of an address is a domain name or an address of the Internet Protocol. Octets of it can be escaped, as `%`
and two hexadecimal digits.
-/

namespace Addons

namespace Percent

def escapeByte (b : UInt8) : List Char :=
  ['%', Text.hexDigit (b.toNat / 16), Text.hexDigit (b.toNat % 16)]

/-- Escape control characters, all that is not ASCII, and the characters of a list. -/
def encode (special : List Char) (cs : List Char) : List Char :=
  cs.flatMap fun c =>
    if c.toNat < 0x20 || 0x7F ≤ c.toNat || special.contains c then
      (String.utf8EncodeChar c).flatMap escapeByte
    else [c]

/-- The octets of a text with its escapes undone; a `%` without two digits stands for itself. -/
def decode : List Char → List UInt8
  | '%' :: a :: b :: rest =>
    match Text.hexValue? a, Text.hexValue? b with
    | some x, some y => UInt8.ofNat (x * 16 + y) :: decode rest
    | _, _ => '%'.toUInt8 :: decode (a :: b :: rest)
  | c :: rest => String.utf8EncodeChar c ++ decode rest
  | [] => []
termination_by cs => cs.length

end Percent

/-- Why a text is no address. -/
inductive AddressError where
  | relative
  | emptyHost
  | badDomain
  | badPort
  | badIpv4
  | badIpv6
  | badHostCharacter
  deriving DecidableEq, Repr

def AddressError.message : AddressError → String
  | .relative => "relative URL without a base"
  | .emptyHost => "empty host"
  | .badDomain => "invalid international domain name"
  | .badPort => "invalid port number"
  | .badIpv4 => "invalid IPv4 address"
  | .badIpv6 => "invalid IPv6 address"
  | .badHostCharacter => "invalid domain character"

inductive WebHost where
  | domain (name : List Char)
  | ipv4 (n : Nat)
  /-- Eight numbers of 16 bits. -/
  | ipv6 (pieces : List Nat)
  deriving DecidableEq, Repr, Inhabited

/-- Digits in a base, if they are digits of that base. -/
def digitsIn? (base : Nat) (cs : List Char) : Option Nat :=
  cs.foldl (fun acc c => do
    let n ← acc
    let d ← Text.hexValue? c
    if d < base then some (n * base + d) else none) (some 0)

namespace WebHost

/-- A part of an address in numbers: hexadecimal after `0x`, octal after `0`, otherwise decimal. -/
def ipv4Number? : List Char → Option Nat
  | [] => none
  | '0' :: 'x' :: cs | '0' :: 'X' :: cs => digitsIn? 16 cs
  | '0' :: c :: cs => digitsIn? 8 (c :: cs)
  | cs => digitsIn? 10 cs

/-- The parts between the dots, without an empty last one. -/
def dotted (cs : List Char) : List (List Char) :=
  let parts := Text.splitAll '.' cs
  if 1 < parts.length && parts.getLast? = some [] then parts.dropLast else parts

/-- Whether a name ends in a number, so that it has to be an address in numbers. -/
def endsInNumber (cs : List Char) : Bool :=
  match (dotted cs).getLast? with
  | some last => (!last.isEmpty && last.all Char.isDigit) || (ipv4Number? last).isSome
  | none => false

/-- An address in one to four numbers. The last one fills what the others leave. -/
def ipv4? (cs : List Char) : Option Nat := do
  let numbers ← (dotted cs).mapM ipv4Number?
  let last ← numbers.getLast?
  let front := numbers.dropLast
  if 4 < numbers.length || front.any (fun n => 255 < n) || Nat.pow 256 (4 - front.length) ≤ last then none
  else return front.foldl (fun n m => n * 256 + m) 0 * Nat.pow 256 (4 - front.length) + last

/-- Four decimal numbers up to 255 without needless zeros, as two numbers of 16 bits. -/
def ipv4Tail? (cs : List Char) : Option (List Nat) := do
  let numbers ← (Text.splitAll '.' cs).mapM fun part =>
    match part with
    | [] => none
    | '0' :: _ :: _ => none
    | _ => if part.all Char.isDigit then digitsIn? 10 part else none
  match numbers with
  | [a, b, c, d] =>
    if numbers.all fun n => n ≤ 255 then some [a * 256 + b, c * 256 + d] else none
  | _ => none

/-- Numbers of up to four hexadecimal digits between colons, of which the last may be an address in
decimal numbers. -/
def ipv6Pieces? : List (List Char) → Option (List Nat)
  | [] => some []
  | [last] => if last.contains '.' then ipv4Tail? last else (piece? last).map fun n => [n]
  | part :: rest => do return (← piece? part) :: (← ipv6Pieces? rest)
where
  piece? (cs : List Char) : Option Nat :=
    if cs.isEmpty || 4 < cs.length then none else digitsIn? 16 cs

/-- The parts around the first `::`. -/
def splitGap? : List Char → Option (List Char × List Char)
  | ':' :: ':' :: rest => some ([], rest)
  | c :: rest => (splitGap? rest).map fun p => (c :: p.1, p.2)
  | [] => none

/-- Eight numbers, of which `::` stands for one or more zeros. -/
def ipv6? (cs : List Char) : Option (List Nat) :=
  let pieces? (part : List Char) : Option (List Nat) :=
    if part.isEmpty then some [] else ipv6Pieces? (Text.splitAll ':' part)
  match splitGap? cs with
  | none => do
    let pieces ← pieces? cs
    if pieces.length = 8 then some pieces else none
  | some (front, back) => do
    let front ← if front.contains '.' then none else pieces? front
    let back ← pieces? back
    if front.length + back.length < 8 then
      some (front ++ List.replicate (8 - front.length - back.length) 0 ++ back)
    else none

/-- A host between brackets. -/
def bracketed (cs : List Char) : Except AddressError WebHost :=
  if cs.getLast? = some ']' then
    match ipv6? cs.dropLast with
    | some pieces => .ok (.ipv6 pieces)
    | none => .error .badIpv6
  else .error .badIpv6

/-- The host of an address whose scheme has hosts of its own kind. -/
def parse (cs : List Char) : Except AddressError WebHost :=
  match cs with
  | '[' :: rest => bracketed rest
  | _ =>
    match (String.fromUTF8? ⟨(Percent.decode cs).toArray⟩).bind fun s => Domain.ascii? s.toList with
    | none => .error .badDomain
    | some name =>
      if name.isEmpty then .error .emptyHost
      else if endsInNumber name then
        match ipv4? name with
        | some n => .ok (.ipv4 n)
        | none => .error .badIpv4
      else .ok (.domain name)

/-- The host of an address with any other scheme, which is taken as it stands. -/
def parseLoose (cs : List Char) : Except AddressError WebHost :=
  match cs with
  | '[' :: rest => bracketed rest
  | _ =>
    if cs.any fun c => ['\x00', '\t', '\n', '\r', ' ', '#', '/', ':', '<', '>', '?', '@', '[', '\\', ']',
        '^', '|'].contains c then .error .badHostCharacter
    else .ok (.domain (Percent.encode [] cs))

/-- The start and length of the first longest run of zeros. -/
def longestGap (pieces : List Nat) : Nat × Nat :=
  ((List.range pieces.length).map fun i => (i, ((pieces.drop i).takeWhile (· = 0)).length)).foldl
    (fun best run => if best.2 < run.2 then run else best) (0, 0)

/-- Eight numbers in hexadecimal; two zeros or more are written as `::`. -/
def ipv6Text (pieces : List Nat) : List Char :=
  let text (ns : List Nat) : List Char := [':'].intercalate (ns.map (Nat.toDigits 16))
  let (start, length) := longestGap pieces
  if length < 2 then text pieces
  else text (pieces.take start) ++ [':', ':'] ++ text (pieces.drop (start + length))

def text : WebHost → List Char
  | .domain name => name
  | .ipv4 n =>
    ['.'].intercalate ([n / Nat.pow 256 3, n / Nat.pow 256 2 % 256, n / 256 % 256, n % 256].map fun m =>
      (toString m).toList)
  | .ipv6 pieces => '[' :: ipv6Text pieces ++ [']']

end WebHost

end Addons
