import Addons.Text

/-!
# Places in a YAML text

The characters a YAML text may hold, their classes, and a place in the text: what is left of it, with
the line and column reached.
-/

namespace Addons.Yaml

/-- The characters a text may hold: tab, line feed, carriage return, and the printable ones; a byte
order mark only as the very first character. -/
def isAllowed (c : Char) : Bool :=
  let n := c.toNat
  n = 0x09 || n = 0x0A || n = 0x0D || (0x20 ≤ n && n ≤ 0x7E) || n = 0x85 || (0xA0 ≤ n && n ≤ 0xD7FF)
    || (0xE000 ≤ n && n ≤ 0xFFFD && n != 0xFEFF) || 0x10000 ≤ n

def isBreak (c : Char) : Bool :=
  c = '\n' || c = '\r' || c.toNat = 0x85 || c.toNat = 0x2028 || c.toNat = 0x2029

def isSpaceOrTab (c : Char) : Bool := c = ' ' || c = '\t'

/-- The character that stands for the end of the text; no text holds it. -/
def endMark : Char := '\x00'

def isBreakOrEnd (c : Char) : Bool := isBreak c || c = endMark

def isGapOrEnd (c : Char) : Bool := isSpaceOrTab c || isBreakOrEnd c

/-- Letters, digits, `-` and `_`, of which names of anchors, handles and directives are made. -/
def isWordChar (c : Char) : Bool := c.isAlphanum || c = '_' || c = '-'

/-- A place in a text. -/
structure Cursor where
  rest : List Char
  /-- Characters passed. -/
  index : Nat
  line : Nat
  column : Nat
  deriving Repr, Inhabited

namespace Cursor

def start (text : List Char) : Cursor := ⟨text, 0, 0, 0⟩

def peek (c : Cursor) : Char := c.rest.headD endMark

/-- The character `n` places ahead. -/
def peekAt (c : Cursor) (n : Nat) : Char := c.rest.getD n endMark

/-- Pass `n` characters of the line. -/
def skip (c : Cursor) (n : Nat) : Cursor := ⟨c.rest.drop n, c.index + n, c.line, c.column + n⟩

/-- The characters up to the first that does not satisfy `p`, and the place after them. -/
def span (p : Char → Bool) (c : Cursor) : List Char × Cursor :=
  let taken := c.rest.takeWhile p
  (taken, c.skip taken.length)

def skipWhile (p : Char → Bool) (c : Cursor) : Cursor := (c.span p).2

/-- Pass a line break, if one stands here. A carriage return, a line feed, both together and U+0085 read
as a line feed, U+2028 and U+2029 as themselves. -/
def takeBreak (c : Cursor) : List Char × Cursor :=
  match c.rest with
  | '\r' :: '\n' :: rest => (['\n'], ⟨rest, c.index + 2, c.line + 1, 0⟩)
  | d :: rest =>
    if !isBreak d then ([], c)
    else
      let text := if d.toNat = 0x2028 || d.toNat = 0x2029 then d else '\n'
      ([text], ⟨rest, c.index + 1, c.line + 1, 0⟩)
  | [] => ([], c)

/-- Pass the rest of the line if it is blank or a comment. -/
def skipComment (c : Cursor) : Cursor :=
  if c.peek = '#' then c.skipWhile fun d => !isBreakOrEnd d else c

/-- Pass blanks and a comment up to the end of the line; none if anything else stands there. -/
def endLine? (c : Cursor) : Option Cursor :=
  let c := (c.skipWhile isSpaceOrTab).skipComment
  if isBreakOrEnd c.peek then some c.takeBreak.2 else none

/-- Whether a line starts here with three times `d` and a gap, which bounds a document. -/
def atMarker (c : Cursor) (d : Char) : Bool :=
  c.column = 0 && c.peek = d && c.peekAt 1 = d && c.peekAt 2 = d && isGapOrEnd (c.peekAt 3)

def atDocumentMarker (c : Cursor) : Bool := c.atMarker '-' || c.atMarker '.'

end Cursor

end Addons.Yaml
