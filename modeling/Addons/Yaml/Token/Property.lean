import Addons.Yaml.Cursor
import Addons.Yaml.Token

/-!
# Directives, anchors and tags

Reading the tokens that are made of names: `%` directives, `&` anchors, `*` aliases and `!` tags.
-/

namespace Addons.Yaml

/-- Characters of a tag that need no escape. Inside angle brackets commas and brackets are among them. -/
def isTagChar (verbatim : Bool) (c : Char) : Bool :=
  isWordChar c || (";/?:@&=+$.!~*'()").toList.contains c || (verbatim && (",[]").toList.contains c)

/-- The length of a UTF-8 sequence by its first octet. -/
def sequenceLength? (octet : Nat) : Option Nat :=
  if octet < 0x80 then some 1
  else if 0xC0 ≤ octet ∧ octet < 0xE0 then some 2
  else if 0xE0 ≤ octet ∧ octet < 0xF0 then some 3
  else if 0xF0 ≤ octet ∧ octet < 0xF8 then some 4
  else none

/-- The octet of a `%` escape, and the place after it. -/
def octet? (c : Cursor) : Option (Nat × Cursor) :=
  if c.peek = '%' then do
    return ((← Text.hexValue? (c.peekAt 1)) * 16 + (← Text.hexValue? (c.peekAt 2)), c.skip 3)
  else none

/-- The octets that continue an escaped sequence. -/
def moreOctets? : Nat → List Char → Cursor → Option (List Char × Cursor)
  | 0, acc, c => some (acc.reverse, c)
  | n + 1, acc, c => do
    let (o, c) ← octet? c
    if o / 64 = 2 then moreOctets? n (Char.ofNat o :: acc) c else none

/-- The characters of a tag. An escaped character stands as its octets. -/
def tagText? (verbatim : Bool) : Nat → List Char → Cursor → Option (List Char × Cursor)
  | 0, _, _ => none
  | fuel + 1, acc, c =>
    if c.peek = '%' then do
      let (o, next) ← octet? c
      let (more, next) ← moreOctets? ((← sequenceLength? o) - 1) [] next
      tagText? verbatim fuel (acc ++ Char.ofNat o :: more) next
    else if isTagChar verbatim c.peek && c.peek != endMark then
      tagText? verbatim fuel (acc ++ [c.peek]) (c.skip 1)
    else some (acc, c)

/-- A tag text from `c` on. -/
def readTagText? (verbatim : Bool) (c : Cursor) : Option (List Char × Cursor) :=
  tagText? verbatim (c.rest.length + 1) [] c

/-- A handle: `!`, `!!` or `!name!`. The closing mark may be missing. -/
def handle? (c : Cursor) : Option (List Char × Cursor) :=
  if c.peek != '!' then none
  else
    let (name, c) := (c.skip 1).span isWordChar
    if c.peek = '!' then some ('!' :: name ++ ['!'], c.skip 1) else some ('!' :: name, c)

/-- An anchor or alias name after its mark. A gap or one of a few marks has to follow. -/
def readAnchor? (c : Cursor) : Option (List Char × Cursor) :=
  let (name, c) := (c.skip 1).span isWordChar
  if name.isEmpty then none
  else if isGapOrEnd c.peek || ("?:,]\x7d%@`").toList.contains c.peek then
    some (name, c)
  else none

/-- A tag: verbatim in angle brackets, a handle with a suffix, or local. -/
def readTag? (flow : Bool) (c : Cursor) : Option (TagName × Cursor) := do
  let (tag, c) ←
    if c.peekAt 1 = '<' then do
      let (text, c) ← readTagText? true (c.skip 2)
      if text.isEmpty || c.peek != '>' then none
      else some ((⟨[], text⟩ : TagName), c.skip 1)
    else do
      let (handle, c) ← handle? c
      if handle.length > 1 && handle.getLast? = some '!' then do
        let (suffix, c) ← readTagText? false c
        if suffix.isEmpty then none else some ((⟨handle, suffix⟩ : TagName), c)
      else do
        let (more, c) ← readTagText? false c
        let suffix := handle.drop 1 ++ more
        some ((if suffix.isEmpty then ⟨[], ['!']⟩ else ⟨['!'], suffix⟩ : TagName), c)
  if isGapOrEnd c.peek || (flow && c.peek = ',') then return (tag, c) else none

/-- A number of at most nine digits. -/
def versionNumber? (c : Cursor) : Option (Nat × Cursor) :=
  let (ds, c) := c.span Char.isDigit
  if ds.isEmpty || ds.length > 9 then none
  else some (ds.foldl (fun n d => n * 10 + (d.toNat - 48)) 0, c)

/-- A directive line: `%YAML` with a version or `%TAG` with a handle and what it stands for. -/
def readDirective? (c : Cursor) : Option (Token × Cursor) := do
  let (name, c) := (c.skip 1).span isWordChar
  if name.isEmpty || !isGapOrEnd c.peek then none
  let c := c.skipWhile isSpaceOrTab
  let (token, c) ←
    if name = "YAML".toList then do
      let (major, c) ← versionNumber? c
      if c.peek != '.' then none
      else do
        let (minor, c) ← versionNumber? (c.skip 1)
        some (Token.version major minor, c)
    else if name = "TAG".toList then do
      let (handle, c) ← handle? c
      if handle.getLast? != some '!' || !isSpaceOrTab c.peek then none
      else do
        let (expansion, c) ← readTagText? true (c.skipWhile isSpaceOrTab)
        if expansion.isEmpty || !isGapOrEnd c.peek then none
        else some (Token.tagDirective handle expansion, c)
    else none
  return (token, ← c.endLine?)

end Addons.Yaml
