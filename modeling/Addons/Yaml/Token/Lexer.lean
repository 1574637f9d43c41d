import Addons.Yaml.Token
import Addons.Yaml.Token.Property
import Addons.Yaml.Token.Scalar

/-!
# From characters to tokens

A token that may turn out to be a key leaves a slot before it. The slot is filled when a `:` follows on
the same line. When the text is bad at some place, the tokens before the first slot still open are
known, and nothing after it.
-/

namespace Addons.Yaml

/-- An open slot: whether a `:` has to come, and where the key starts. -/
structure OpenKey where
  slot : Nat
  required : Bool
  index : Nat
  line : Nat
  column : Nat
  deriving Repr

/-- A token or a slot in the order of the text. -/
inductive Piece where
  | token (t : Token)
  | slot (n : Nat)

structure Lexer where
  cursor : Cursor
  /-- What has been read, last first. -/
  pieces : List Piece
  /-- Slots that were filled, with the tokens in them. -/
  filled : List (Nat × List Token)
  /-- Number of slots made. -/
  slots : Nat
  /-- Column of the innermost block; -1 outside of all. -/
  indent : Int
  /-- Columns of the blocks around it. -/
  outer : List Int
  /-- The possible key at each level of brackets, innermost first. -/
  keys : List (Option OpenKey)
  /-- Whether a key may start here. -/
  keyAllowed : Bool

namespace Lexer

def start (text : List Char) : Lexer := ⟨Cursor.start text, [], [], 0, -1, [], [none], true⟩

def inFlow (s : Lexer) : Bool := s.keys.length > 1

def push (s : Lexer) (t : Token) : Lexer := { s with pieces := .token t :: s.pieces }

/-- Append a token and pass `n` characters. -/
def pushSkip (s : Lexer) (t : Token) (n : Nat) : Lexer :=
  { s.push t with cursor := s.cursor.skip n }

/-- Pass white space, comments and line breaks. A tab may not stand where a key may start in block
context. -/
def skipGap : Nat → Lexer → Lexer
  | 0, s => s
  | fuel + 1, s =>
    let blank (c : Char) : Bool := c = ' ' || ((s.inFlow || !s.keyAllowed) && c = '\t')
    let c := (s.cursor.skipWhile blank).skipComment
    if isBreak c.peek then
      skipGap fuel { s with cursor := c.takeBreak.2, keyAllowed := s.keyAllowed || !s.inFlow }
    else { s with cursor := c }

/-- Close slots that a later line or more than 1024 characters have overtaken; none if a `:` was
required there. -/
def dropStale? (s : Lexer) : Option Lexer := do
  let keys ← s.keys.mapM fun
    | none => some none
    | some k =>
      if k.line < s.cursor.line ∨ k.index + 1024 < s.cursor.index then
        (if k.required then none else some none)
      else some (some k)
  return { s with keys }

/-- End the blocks that are indented more than `column`. -/
def unroll (column : Int) : List Int → Lexer → Lexer
  | [], s => s
  | next :: rest, s =>
    if s.indent > column then
      unroll column rest { s.push .blockEnd with indent := next, outer := rest }
    else s

def unrollTo (s : Lexer) (column : Int) : Lexer :=
  if s.inFlow then s else unroll column s.outer s

/-- Start a block at a column if it is indented more than the block around it. -/
def roll (s : Lexer) (column : Int) (t : Token) : Lexer :=
  if !s.inFlow && s.indent < column then
    { s.push t with indent := column, outer := s.indent :: s.outer }
  else s

def setKey (s : Lexer) (k : Option OpenKey) : Lexer := { s with keys := k :: s.keys.drop 1 }

/-- Give up the possible key at this level; none if a `:` was required. -/
def dropKey? (s : Lexer) : Option Lexer :=
  match s.keys with
  | some k :: _ => if k.required then none else some (s.setKey none)
  | _ => some s

/-- Leave a slot for a key that may start here. -/
def openKey? (s : Lexer) : Option Lexer := do
  if !s.keyAllowed then return s
  let s ← s.dropKey?
  let c := s.cursor
  let required := !s.inFlow && s.indent = (c.column : Int)
  return { s.setKey (some ⟨s.slots, required, c.index, c.line, c.column⟩) with
    pieces := .slot s.slots :: s.pieces, slots := s.slots + 1 }

/-- A `[` or an opening brace. -/
def openFlow? (s : Lexer) (t : Token) : Option Lexer := do
  let s ← s.openKey?
  return { s.pushSkip t 1 with keys := none :: s.keys, keyAllowed := true }

/-- A `]` or a closing brace. -/
def closeFlow? (s : Lexer) (t : Token) : Option Lexer := do
  let s ← s.dropKey?
  let keys := if s.inFlow then s.keys.drop 1 else s.keys
  return { s.pushSkip t 1 with keys, keyAllowed := false }

def flowEntry? (s : Lexer) : Option Lexer := do
  let s ← s.dropKey?
  return { s.pushSkip .flowEntry 1 with keyAllowed := true }

/-- A `-` entry of a block sequence. -/
def blockEntry? (s : Lexer) : Option Lexer := do
  if !s.inFlow && !s.keyAllowed then none
  let s ← (s.roll s.cursor.column .blockSequenceStart).dropKey?
  return { s.pushSkip .blockEntry 1 with keyAllowed := true }

/-- A `?` key. -/
def explicitKey? (s : Lexer) : Option Lexer := do
  if !s.inFlow && !s.keyAllowed then none
  let s ← (s.roll s.cursor.column .blockMappingStart).dropKey?
  return { s.pushSkip .key 1 with keyAllowed := !s.inFlow }

/-- A `:`. It fills the open slot, if there is one, and starts a block mapping at its key. -/
def value? (s : Lexer) : Option Lexer :=
  match s.keys with
  | some k :: _ =>
    let starts := !s.inFlow && s.indent < k.column
    let s :=
      { s.setKey none with
        filled := (k.slot, if starts then [.blockMappingStart, .key] else [.key]) :: s.filled
        indent := if starts then k.column else s.indent
        outer := if starts then s.indent :: s.outer else s.outer }
    some { s.pushSkip .value 1 with keyAllowed := false }
  | _ =>
    if !s.inFlow && !s.keyAllowed then none
    else
      let s := s.roll s.cursor.column .blockMappingStart
      some { s.pushSkip .value 1 with keyAllowed := !s.inFlow }

def scalar (s : Lexer) (style : ScalarStyle) (r : ScalarReading) : Lexer :=
  { s.push (.scalar style r.text) with cursor := r.after, keyAllowed := r.brokeLine }

def blockScalar? (s : Lexer) (literal : Bool) : Option Lexer := do
  let s ← s.dropKey?
  let r ← Block.read? literal s.indent s.cursor
  return { s.scalar (if literal then .literal else .folded) r with keyAllowed := true }

def quoted? (s : Lexer) (double : Bool) : Option Lexer := do
  let s ← s.openKey?
  return s.scalar .quoted (← Quoted.read? double s.cursor)

def plain? (s : Lexer) : Option Lexer := do
  let s ← s.openKey?
  return s.scalar .plain (← Plain.read? s.inFlow (s.indent + 1).toNat s.cursor)

/-- A token made of a name, which may start a key and lets none start right after it. -/
def property? (s : Lexer) (read : Cursor → Option (Token × Cursor)) : Option Lexer := do
  let s ← s.openKey?
  let (t, c) ← read s.cursor
  return { s.push t with cursor := c, keyAllowed := false }

/-- Close all blocks and keys at the edge of a document. -/
def edge? (s : Lexer) : Option Lexer := do
  let s ← (s.unrollTo (-1)).dropKey?
  return { s with keyAllowed := false }

def directive? (s : Lexer) : Option Lexer := do
  let s ← s.edge?
  let (t, c) ← readDirective? s.cursor
  return { s.push t with cursor := c }

/-- Whether a plain scalar may start with `c` before `next`. -/
def startsPlain (flow : Bool) (c next : Char) : Bool :=
  !(isGapOrEnd c || ("-?:,[]\x7b\x7d#&*!|>'\"%@`").toList.contains c)
    || (c = '-' && !isSpaceOrTab next)
    || (!flow && (c = '?' || c = ':') && !isGapOrEnd next)

/-- Read the token at the cursor; none if nothing may start there. -/
def token? (s : Lexer) : Option Lexer :=
  let c := s.cursor
  let d := c.peek
  let next := c.peekAt 1
  if c.column = 0 && d = '%' then s.directive?
  else if c.atMarker '-' then s.edge?.map fun s => s.pushSkip .documentStart 3
  else if c.atMarker '.' then s.edge?.map fun s => s.pushSkip .documentEnd 3
  else if d = '[' then s.openFlow? .flowSequenceStart
  else if d = '\x7b' then s.openFlow? .flowMappingStart
  else if d = ']' then s.closeFlow? .flowSequenceEnd
  else if d = '\x7d' then s.closeFlow? .flowMappingEnd
  else if d = ',' then s.flowEntry?
  else if d = '-' && isGapOrEnd next then s.blockEntry?
  else if d = '?' && (s.inFlow || isGapOrEnd next) then s.explicitKey?
  else if d = ':' && (s.inFlow || isGapOrEnd next) then s.value?
  else if d = '*' then s.property? fun c => (readAnchor? c).map fun r => (.alias r.1, r.2)
  else if d = '&' then s.property? fun c => (readAnchor? c).map fun r => (.anchor r.1, r.2)
  else if d = '!' then s.property? fun c => (readTag? s.inFlow c).map fun r => (.tag r.1, r.2)
  else if d = '|' && !s.inFlow then s.blockScalar? true
  else if d = '>' && !s.inFlow then s.blockScalar? false
  else if d = '\'' then s.quoted? false
  else if d = '"' then s.quoted? true
  else if startsPlain s.inFlow d next then s.plain?
  else none

/-- The tokens in order, with filled slots in their places; they stop at the first slot still open if
`cut` is set. -/
def output (s : Lexer) (cut : Bool) : List Token :=
  let opened := s.keys.filterMap fun k => k.map OpenKey.slot
  let rec go : List Piece → List Token
    | [] => []
    | .token t :: rest => t :: go rest
    | .slot n :: rest =>
      if cut && opened.contains n then [] else ((s.filled.lookup n).getD []) ++ go rest
  go s.pieces.reverse

/-- Read all tokens. The fuel bounds their number. Without a stream end the text is bad at the end of
the tokens. -/
def run (cutShort : Bool) : Nat → Lexer → List Token
  | 0, s => s.output true
  | fuel + 1, s =>
    let s := skipGap (s.cursor.rest.length + 1) s
    match s.dropStale? with
    | none => s.output true
    | some s =>
      let s := s.unrollTo s.cursor.column
      if s.cursor.rest.isEmpty then
        if cutShort then s.output true
        else
          match s.edge? with
          | some s => (s.push .streamEnd).output false
          | none => s.output true
      else
        match s.token? with
        | some s => run cutShort fuel s
        | none => s.output true

end Lexer

/-- Octets are decoded in blocks of this size, and a block with a character that is not allowed is
refused as a whole. -/
def blockSize : Nat := 16384

/-- The text before the block that holds the first character not allowed, and whether there is one. -/
def allowedPart (text : List Char) : List Char × Bool :=
  let rec go : Nat → List Char → Option Nat
    | _, [] => none
    | offset, c :: rest => if isAllowed c then go (offset + c.utf8Size) rest else some (offset + c.utf8Size)
  let rec cut : Nat → List Char → List Char
    | _, [] => []
    | budget, c :: rest => if c.utf8Size ≤ budget then c :: cut (budget - c.utf8Size) rest else []
  match go 0 text with
  | none => (text, false)
  | some stop => (cut ((stop - 1) / blockSize * blockSize) text, true)

/-- The tokens of a text, up to the first place where it is bad. -/
def tokens (text : String) : List Token :=
  let cs := match text.toList with
    | c :: rest => if c.toNat = 0xFEFF then rest else c :: rest
    | [] => []
  let (cs, cutShort) := allowedPart cs
  Lexer.run cutShort (cs.length + 2) (Lexer.start cs)

end Addons.Yaml
