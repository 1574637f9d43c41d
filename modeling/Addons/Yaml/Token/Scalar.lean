import Addons.Yaml.Cursor

/-!
# Scalar tokens

Reading plain, quoted and block scalars. A line break inside a plain or quoted scalar folds: one break
reads as a space, of several all but the first are kept.
-/

namespace Addons.Yaml

/-- The white space between two parts of a scalar. -/
inductive Gap where
  | none
  | blanks (text : List Char)
  /-- The first line break, as read, and those after it. -/
  | lines (first : List Char) (more : List Char)

namespace Gap

/-- What a gap inside a scalar reads as. -/
def text : Gap → List Char
  | .none => []
  | .blanks ws => ws
  | .lines first more =>
    if first = ['\n'] then (if more.isEmpty then [' '] else more) else first ++ more

def isLines : Gap → Bool
  | .lines _ _ => true
  | _ => false

/-- Pass blanks and line breaks. None if a tab stands in the first `indent` columns of a line. The fuel
bounds the number of characters passed. -/
def read? (indent : Nat) : Nat → Gap → Cursor → Option (Gap × Cursor)
  | 0, g, c => some (g, c)
  | fuel + 1, g, c =>
    let d := c.peek
    if isSpaceOrTab d then
      match g with
      | .none => read? indent fuel (.blanks [d]) (c.skip 1)
      | .blanks ws => read? indent fuel (.blanks (ws ++ [d])) (c.skip 1)
      | .lines _ _ => if d = '\t' ∧ c.column < indent then Option.none else read? indent fuel g (c.skip 1)
    else if isBreak d then
      let (br, c) := c.takeBreak
      match g with
      | .lines first more => read? indent fuel (.lines first (more ++ br)) c
      | _ => read? indent fuel (.lines br []) c
    else some (g, c)

end Gap

/-- A scalar that has been read, the place after it, and whether it ended on a line of its own. -/
structure ScalarReading where
  text : List Char
  after : Cursor
  brokeLine : Bool := false

namespace Plain

/-- Characters that end a plain scalar inside brackets. -/
def isFlowMark (c : Char) : Bool := c = ',' || c = '[' || c = ']' || c = '\x7b' || c = '\x7d'

/-- The characters up to a gap or to a mark that ends the scalar. None if a `:` stands before a flow
mark, which is refused. -/
def word? (flow : Bool) : Nat → List Char → Cursor → Option (List Char × Cursor)
  | 0, acc, c => some (acc.reverse, c)
  | fuel + 1, acc, c =>
    let d := c.peek
    if isGapOrEnd d then some (acc.reverse, c)
    else
      let next := c.peekAt 1
      if flow && d = ':' && (isFlowMark next || next = '?') then none
      else if (d = ':' && isGapOrEnd next) || (flow && isFlowMark d) then some (acc.reverse, c)
      else word? flow fuel (d :: acc) (c.skip 1)

/-- Words and gaps in turn. A scalar ends before a comment, a document marker, a mark, and in block
context before a line that is indented less than `indent`. -/
def words? (flow : Bool) (indent : Nat) : Nat → List Char → Gap → Cursor → Option ScalarReading
  | 0, _, _, _ => none
  | fuel + 1, acc, gap, c =>
    if c.atDocumentMarker || c.peek = '#' then some ⟨acc, c, gap.isLines⟩
    else do
      let (word, c) ← word? flow (c.rest.length + 1) [] c
      let (acc, gap) := if word.isEmpty then (acc, gap) else (acc ++ gap.text ++ word, Gap.none)
      if !(isSpaceOrTab c.peek || isBreak c.peek) then return ⟨acc, c, gap.isLines⟩
      let (gap, c) ← Gap.read? indent (c.rest.length + 1) gap c
      if !flow && c.column < indent then return ⟨acc, c, gap.isLines⟩
      words? flow indent fuel acc gap c

def read? (flow : Bool) (indent : Nat) (c : Cursor) : Option ScalarReading :=
  words? flow indent (c.rest.length + 1) [] .none c

end Plain

namespace Quoted

/-- The character of a one-letter escape. -/
def escape? (c : Char) : Option Char :=
  match c with
  | '0' => some '\x00'
  | 'a' => some '\x07'
  | 'b' => some '\x08'
  | 't' => some '\t'
  | '\t' => some '\t'
  | 'n' => some '\n'
  | 'v' => some '\x0b'
  | 'f' => some '\x0c'
  | 'r' => some '\r'
  | 'e' => some '\x1b'
  | ' ' => some ' '
  | '"' => some '"'
  | '/' => some '/'
  | '\\' => some '\\'
  | 'N' => some (Char.ofNat 0x85)
  | '_' => some (Char.ofNat 0xA0)
  | 'L' => some (Char.ofNat 0x2028)
  | 'P' => some (Char.ofNat 0x2029)
  | _ => none

/-- The number of hexadecimal digits after an escape letter. -/
def escapeDigits? (c : Char) : Option Nat :=
  match c with
  | 'x' => some 2
  | 'u' => some 4
  | 'U' => some 8
  | _ => none

/-- The escape at a backslash, and the place after it. -/
def escapeAt? (c : Cursor) : Option (Char × Cursor) :=
  match escapeDigits? (c.peekAt 1) with
  | some n => do
    let value ← Text.hexNumber? ((c.rest.drop 2).take n)
    if (c.rest.drop 2).length < n then none
    if (0xD800 ≤ value ∧ value ≤ 0xDFFF) ∨ 0x10FFFF < value then none
    return (Char.ofNat value, c.skip (n + 2))
  | none => do return (← escape? (c.peekAt 1), c.skip 2)

/-- The characters up to a gap, the closing quote, or an escaped line break, which starts a gap. -/
def word? (double : Bool) : Nat → List Char → Cursor → Option (List Char × Gap × Cursor)
  | 0, acc, c => some (acc.reverse, .none, c)
  | fuel + 1, acc, c =>
    let d := c.peek
    if isGapOrEnd d then some (acc.reverse, .none, c)
    else if !double && d = '\'' && c.peekAt 1 = '\'' then word? double fuel ('\'' :: acc) (c.skip 2)
    else if d = (if double then '"' else '\'') then some (acc.reverse, .none, c)
    else if double && d = '\\' then
      if isBreak (c.peekAt 1) then some (acc.reverse, .lines [] [], (c.skip 1).takeBreak.2)
      else do
        let (e, c) ← escapeAt? c
        word? double fuel (e :: acc) c
    else word? double fuel (d :: acc) (c.skip 1)

/-- Words and gaps in turn up to the closing quote. -/
def words? (double : Bool) : Nat → List Char → Cursor → Option ScalarReading
  | 0, _, _ => none
  | fuel + 1, acc, c =>
    if c.atDocumentMarker || c.peek = endMark then none
    else do
      let (word, gap, c) ← word? double (c.rest.length + 1) [] c
      let acc := acc ++ word
      if c.peek = (if double then '"' else '\'') then return ⟨acc, c.skip 1, false⟩
      let (gap, c) ← Gap.read? 0 (c.rest.length + 1) gap c
      words? double fuel (acc ++ gap.text) c

/-- A quoted scalar from its opening quote on. -/
def read? (double : Bool) (c : Cursor) : Option ScalarReading :=
  words? double (c.rest.length + 1) [] (c.skip 1)

end Quoted

namespace Block

/-- What becomes of the line breaks at the end of a block scalar. -/
inductive Chomping where
  | strip
  | clip
  | keep
  deriving DecidableEq, Repr

def chompingOf? (c : Char) : Option Chomping :=
  if c = '-' then some .strip else if c = '+' then some .keep else none

/-- The header: a chomping mark and an indentation digit in either order. The digit may not be zero. -/
def header? (c : Cursor) : Option (Chomping × Nat × Cursor) := do
  let digit (c : Cursor) : Option (Nat × Cursor) :=
    if c.peek = '0' then none
    else if c.peek.isDigit then some (c.peek.toNat - 48, c.skip 1)
    else some (0, c)
  match chompingOf? c.peek with
  | some m =>
    let (n, c) ← digit (c.skip 1)
    return (m, n, c)
  | none =>
    let (n, c) ← digit c
    match (if n = 0 then none else chompingOf? c.peek) with
    | some m => return (m, n, c.skip 1)
    | none => return (.clip, n, c)

/-- Pass indentation and empty lines. With `indent` zero all leading spaces are passed and the widest
line is remembered. None if a tab stands where a space of the indentation is expected. -/
def breaks? (indent : Nat) : Nat → List Char → Nat → Cursor → Option (List Char × Nat × Cursor)
  | 0, _, _, _ => none
  | fuel + 1, acc, widest, c =>
    let spaces := (c.rest.takeWhile (· = ' ')).length
    let c := c.skip (if indent = 0 then spaces else min spaces (indent - c.column))
    let widest := max widest c.column
    if (indent = 0 || c.column < indent) && c.peek = '\t' then none
    else if isBreak c.peek then
      let (br, c) := c.takeBreak
      breaks? indent fuel (acc ++ br) widest c
    else some (acc, widest, c)

/-- The lines of the content. A line break between two lines of a folded scalar that do not start with
a blank reads as a space, or as nothing where empty lines follow it. -/
def lines? (literal : Bool) (indent : Nat) :
    Nat → List Char → List Char → List Char → Bool → Cursor →
      Option (List Char × List Char × List Char × Cursor)
  | 0, _, _, _, _, _ => none
  | fuel + 1, acc, lead, trail, leadBlank, c =>
    if c.column = indent ∧ c.peek ≠ endMark then
      let blank := isSpaceOrTab c.peek
      let joined :=
        if !literal && lead = ['\n'] && !leadBlank && !blank then
          (if trail.isEmpty then [' '] else [])
        else lead
      let (content, c) := c.span fun d => !isBreakOrEnd d
      let acc := acc ++ joined ++ trail ++ content
      let (lead, c) := c.takeBreak
      do
        let (trail, _, c) ← breaks? indent (c.rest.length + 1) [] 0 c
        lines? literal indent fuel acc lead trail blank c
    else some (acc, lead, trail, c)

/-- A block scalar from its `|` or `>` on, inside a block that is indented by `parent`. -/
def read? (literal : Bool) (parent : Int) (c : Cursor) : Option ScalarReading := do
  let (chomping, given, c) ← header? (c.skip 1)
  let c ← c.endLine?
  let indent := if given = 0 then 0 else (max parent 0).toNat + given
  let (trail, widest, c) ← breaks? indent (c.rest.length + 1) [] 0 c
  let indent := if indent = 0 then max (max widest (parent + 1).toNat) 1 else indent
  let (text, lead, trail, c) ← lines? literal indent (c.rest.length + 2) [] [] trail false c
  let ending :=
    match chomping with
    | .strip => []
    | .clip => lead
    | .keep => lead ++ trail
  return ⟨text ++ ending, c, false⟩

end Block

end Addons.Yaml
