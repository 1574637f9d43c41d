import Addons.Number.Shortest
import Addons.Yaml.Scalar

/-!
# Writing JSON values as YAML

Block style throughout: two spaces for a level, sequences in mappings not indented further, and empty
collections as `[]` and an empty pair of braces. Text is plain where it reads back as itself, literal
where it has line feeds, and quoted otherwise.
-/

namespace Addons.Yaml

/-- Characters that need no escape. -/
def isPrintable (c : Char) : Bool :=
  let n := c.toNat
  n = 0x0A || (0x20 ≤ n && n ≤ 0x7E) || (0xA0 ≤ n && n != 0xFEFF && n != 0xFFFE && n != 0xFFFF)

/-- What decides how a text may be written. -/
structure TextShape where
  /-- Its first characters or a mark inside of it would be read as structure. -/
  hasMark : Bool
  hasBreak : Bool
  /-- A character needs an escape, or a space stands before a line break. -/
  needsEscape : Bool
  spaceAfterBreak : Bool
  /-- It starts or ends with a space or a line break. -/
  looseEnd : Bool
  endsInSpace : Bool

/-- Whether the marks of the text after its first character are harmless: `:` before a gap or the end,
and `#` after a gap. -/
def hasInnerMark : List Char → Bool
  | c :: d :: rest =>
    (d = ':' && isGapOrEnd (rest.headD endMark)) || (d = '#' && isGapOrEnd c) || hasInnerMark (d :: rest)
  | _ => false

/-- Whether a text starts like structure. -/
def startsWithMark (cs : List Char) : Bool :=
  let c := cs.headD endMark
  let beforeGap := isGapOrEnd (cs.getD 1 endMark)
  cs.take 3 = ['-', '-', '-'] || cs.take 3 = ['.', '.', '.']
    || ("#,[]\x7b\x7d&*!|>'\"%@`").toList.contains c
    || ((c = '?' || c = ':' || c = '-') && beforeGap)

/-- Whether `p` holds of a character and `q` of the next one. -/
def hasPair (p q : Char → Bool) : List Char → Bool
  | c :: d :: rest => (p c && q d) || hasPair p q (d :: rest)
  | _ => false

def TextShape.of (cs : List Char) : TextShape :=
  let loose (c : Option Char) : Bool := c.any fun d => d = ' ' || isBreak d
  { hasMark := startsWithMark cs || hasInnerMark cs
    hasBreak := cs.any isBreak
    needsEscape := cs.any (fun c => !isPrintable c) || hasPair (· = ' ') isBreak cs
    spaceAfterBreak := hasPair isBreak (· = ' ') cs
    looseEnd := loose cs.head? || loose cs.getLast?
    endsInSpace := cs.getLast? = some ' ' }

/-- How a text is written. -/
inductive TextStyle where
  | plain
  | single
  | double
  | literal
  deriving DecidableEq, Repr

def TextStyle.of (cs : List Char) : TextStyle :=
  let shape := TextShape.of cs
  if cs.contains '\n' then
    if shape.endsInSpace || shape.needsEscape then .double else .literal
  else if shape.needsEscape || shape.spaceAfterBreak then .double
  else if Scalar.readsAsOther cs || shape.hasMark || shape.hasBreak || shape.looseEnd then .single
  else .plain

/-- Upper-case hexadecimal digits, padded with zeros. -/
def upperHex (count n : Nat) : List Char :=
  let ds := (Nat.toDigits 16 n).map Char.toUpper
  List.replicate (count - ds.length) '0' ++ ds

/-- A character between double quotes. -/
def escapeChar (c : Char) : List Char :=
  if isPrintable c && !isBreak c && c != '"' && c != '\\' then [c]
  else
    let n := c.toNat
    let short : Option Char :=
      if n = 0 then some '0'
      else if n = 7 then some 'a'
      else if n = 8 then some 'b'
      else if n = 9 then some 't'
      else if n = 10 then some 'n'
      else if n = 11 then some 'v'
      else if n = 12 then some 'f'
      else if n = 13 then some 'r'
      else if n = 27 then some 'e'
      else if n = 0x85 then some 'N'
      else if n = 0x2028 then some 'L'
      else if n = 0x2029 then some 'P'
      else if c = '"' || c = '\\' then some c
      else none
    match short with
    | some e => ['\\', e]
    | none =>
      if n ≤ 0xFF then '\\' :: 'x' :: upperHex 2 n
      else if n ≤ 0xFFFF then '\\' :: 'u' :: upperHex 4 n
      else '\\' :: 'U' :: upperHex 8 n

def spaces (n : Nat) : List Char := List.replicate n ' '

/-- Text between single quotes; after a line break what follows is indented. -/
def singleQuoted (indent : Nat) (cs : List Char) : List Char :=
  let rec go : Bool → List Char → List Char
    | broken, [] => (if broken then spaces indent else []) ++ ['\'']
    | broken, c :: rest =>
      if isBreak c then c :: go true rest
      else
        (if broken then spaces indent else []) ++ (if c = '\'' then ['\'', '\''] else [c])
          ++ go false rest
  '\'' :: go false cs

/-- The marks after the `|` of a literal text: the indentation if it starts with a space or a break, and
what becomes of the breaks at its end. -/
def literalHints (cs : List Char) : List Char :=
  let start := if cs.head?.any fun c => c = ' ' || isBreak c then ['2'] else []
  let stop :=
    match cs.reverse with
    | c :: d :: _ => if !isBreak c then ['-'] else if isBreak d then ['+'] else []
    | [c] => if !isBreak c then ['-'] else ['+']
    | [] => ['-']
  start ++ stop

/-- The lines of a literal text. Empty lines are not indented. -/
def literalLines (indent : Nat) : Bool → List Char → List Char
  | _, [] => []
  | broken, c :: rest =>
    if isBreak c then c :: literalLines indent true rest
    else (if broken then spaces indent else []) ++ c :: literalLines indent false rest

/-- Text as a scalar whose further lines are indented. -/
def scalarText (indent : Nat) (s : String) : List Char :=
  let cs := s.toList
  match TextStyle.of cs with
  | .plain => cs
  | .single => singleQuoted indent cs
  | .double => '"' :: cs.flatMap escapeChar ++ ['"']
  | .literal => '|' :: literalHints cs ++ '\n' :: literalLines indent true cs

/-- A key of one line and at most 128 octets stands before its `:` without a `?`. -/
def isSimpleKey (k : String) : Bool := !k.toList.any isBreak && k.utf8ByteSize ≤ 128

/-- Text written so far, and whether its last line is ended. -/
structure Page where
  text : String
  fresh : Bool

namespace Page

def add (p : Page) (s : String) : Page := ⟨p.text ++ s, false⟩

/-- Start a line, indented. -/
def line (p : Page) (indent : Nat) : Page :=
  ⟨p.text ++ (if p.fresh then "" else "\n") ++ String.ofList (spaces indent), false⟩

/-- Add a scalar; a literal text may end its last line itself. -/
def scalar (p : Page) (indent : Nat) (s : String) : Page :=
  let cs := scalarText indent s
  ⟨p.text ++ String.ofList cs, cs.getLast? = some '\n'⟩

/-- Add a value that is no collection, or an empty one. -/
def leaf (p : Page) (indent : Nat) : Json → Page
  | .null => p.add "null"
  | .bool b => p.add (if b then "true" else "false")
  | .num (.int i) => p.add (toString i)
  | .num (.float x) => p.add x.text
  | .str s => p.scalar indent s
  | .arr _ => p.add "[]"
  | .obj _ => p.add "\x7b\x7d"

mutual

/-- The entries of a mapping, of which the first stands where the page ends. -/
def fields (indent : Nat) : Page → List (String × Json) → Page
  | p, [] => p
  | p, (k, v) :: rest =>
    let p :=
      if isSimpleKey k then afterKey indent ((p.scalar (indent + 2) k).add ":") v
      else nested indent ((((p.add "? ").scalar (indent + 2) k).line indent).add ":") v
    match rest with
    | [] => p
    | e :: more => fields indent (p.line indent) (e :: more)

/-- The items of a sequence, of which the first stands where the page ends. -/
def items (indent : Nat) : Page → List Json → Page
  | p, [] => p
  | p, j :: rest =>
    let p := nested indent (p.add "-") j
    match rest with
    | [] => p
    | i :: more => items indent (p.line indent) (i :: more)

/-- The value after a simple key: a collection starts on a line of its own. -/
def afterKey (indent : Nat) (p : Page) : Json → Page
  | .obj (e :: more) => fields (indent + 2) (p.line (indent + 2)) (e :: more)
  | .arr (i :: more) => items indent (p.line indent) (i :: more)
  | j => (p.add " ").leaf (indent + 2) j

/-- The value after a `-` or `:` mark: a collection starts on the same line. -/
def nested (indent : Nat) (p : Page) : Json → Page
  | .obj (e :: more) => fields (indent + 2) (p.add " ") (e :: more)
  | .arr (i :: more) => items (indent + 2) (p.add " ") (i :: more)
  | j => (p.add " ").leaf (indent + 2) j

end

end Page

/-- A value as one YAML document, which ends its last line. -/
def print (j : Json) : String :=
  let start : Page := ⟨"", true⟩
  let p :=
    match j with
    | .obj (e :: more) => Page.fields 0 start (e :: more)
    | .arr (i :: more) => Page.items 0 start (i :: more)
    | j => start.leaf 2 j
  (p.line 0).text

end Addons.Yaml
