import Addons.Yaml.Node
import Addons.Yaml.Token.Lexer

/-!
# From tokens to documents

The grammar of a YAML stream. A list of tokens without a stream end is bad at its end: what needs a
token there cannot be read.
-/

namespace Addons.Yaml

/-- Nodes named by the text of their anchors. -/
abbrev Tree := Node (List Char)

/-- Tag handles in force, with what they stand for. -/
abbrev Handles := List (List Char × List Char)

def defaultHandles : Handles := [(['!'], ['!']), (['!', '!'], "tag:yaml.org,2002:".toList)]

/-- A tag in full; none if its handle is not in force. -/
def TagName.expand? (handles : Handles) (t : TagName) : Option (List Char) :=
  if t.handle.isEmpty then some t.suffix
  else (handles.lookup t.handle).map fun expansion => expansion ++ t.suffix

namespace Node

/-- The properties before a node: an anchor and a tag in either order. -/
def props? (handles : Handles) (ts : List Token) : Option (Props (List Char) × List Token) :=
  match ts with
  | .anchor a :: .tag t :: rest => do return (⟨some a, some (← t.expand? handles)⟩, rest)
  | .tag t :: .anchor a :: rest => do return (⟨some a, some (← t.expand? handles)⟩, rest)
  | .anchor a :: rest => some (⟨some a, none⟩, rest)
  | .tag t :: rest => do return (⟨none, some (← t.expand? handles)⟩, rest)
  | rest => some ({}, rest)

/-- A scalar. The tag `!` alone only says that it has none. -/
def ofScalar (p : Props (List Char)) (style : ScalarStyle) (text : List Char) : Tree :=
  .scalar { p with tag := if p.tag = some ['!'] then none else p.tag } style text

/-- Whether nothing is written before this token of a block mapping. -/
def endsMapValue : Token → Bool
  | .key | .value | .blockEnd => true
  | _ => false

def endsIndentlessItem : Token → Bool
  | .blockEntry => true
  | t => endsMapValue t

def endsFlowItem : Token → Bool
  | .flowEntry | .flowSequenceEnd => true
  | _ => false

def endsFlowValue : Token → Bool
  | .flowEntry | .flowMappingEnd => true
  | _ => false

mutual

/-- A node. `block` allows block collections, and `indentless` a block sequence that is indented no
more than the key it belongs to. The fuel bounds the number of steps. -/
def ofTokens? (handles : Handles) :
    Nat → (block indentless : Bool) → List Token → Option (Tree × List Token)
  | 0, _, _, _ => none
  | fuel + 1, block, indentless, ts =>
    match ts with
    | .alias name :: rest => some (.alias name, rest)
    | ts => do
      let (p, ts) ← props? handles ts
      match ts with
      | [] => none
      | .scalar style text :: rest => return (ofScalar p style text, rest)
      | .flowSequenceStart :: rest =>
        let (items, rest) ← flowItems? handles fuel true [] rest
        return (.seq p items, rest)
      | .flowMappingStart :: rest =>
        let (entries, rest) ← flowEntries? handles fuel true [] rest
        return (.map p entries, rest)
      | t :: rest =>
        if indentless && t = .blockEntry then do
          let (items, rest) ← indentlessItems? handles fuel [] ts
          return (.seq p items, rest)
        else if block && t = .blockSequenceStart then do
          let (items, rest) ← blockItems? handles fuel [] rest
          return (.seq p items, rest)
        else if block && t = .blockMappingStart then do
          let (entries, rest) ← blockEntries? handles fuel [] rest
          return (.map p entries, rest)
        else if p.anchor.isSome || p.tag.isSome then return (.scalar p .plain [], ts)
        else none

def blockItems? (handles : Handles) :
    Nat → List Tree → List Token → Option (List Tree × List Token)
  | 0, _, _ => none
  | fuel + 1, acc, ts =>
    match ts with
    | .blockEntry :: t :: rest =>
      if t = .blockEntry || t = .blockEnd then blockItems? handles fuel (.empty :: acc) (t :: rest)
      else do
        let (n, rest) ← ofTokens? handles fuel true false (t :: rest)
        blockItems? handles fuel (n :: acc) rest
    | .blockEnd :: rest => some (acc.reverse, rest)
    | _ => none

def indentlessItems? (handles : Handles) :
    Nat → List Tree → List Token → Option (List Tree × List Token)
  | 0, _, _ => none
  | fuel + 1, acc, ts =>
    match ts with
    | .blockEntry :: t :: rest =>
      if endsIndentlessItem t then indentlessItems? handles fuel (.empty :: acc) (t :: rest)
      else do
        let (n, rest) ← ofTokens? handles fuel true false (t :: rest)
        indentlessItems? handles fuel (n :: acc) rest
    | [.blockEntry] => none
    | [] => none
    | ts => some (acc.reverse, ts)

def blockEntries? (handles : Handles) :
    Nat → List (Tree × Tree) → List Token → Option (List (Tree × Tree) × List Token)
  | 0, _, _ => none
  | fuel + 1, acc, ts =>
    match ts with
    | .key :: t :: rest => do
      let (k, rest) ←
        if endsMapValue t then some (.empty, t :: rest)
        else ofTokens? handles fuel true true (t :: rest)
      let (v, rest) ← blockValue? handles fuel rest
      blockEntries? handles fuel ((k, v) :: acc) rest
    | .blockEnd :: rest => some (acc.reverse, rest)
    | _ => none

def blockValue? (handles : Handles) : Nat → List Token → Option (Tree × List Token)
  | 0, _ => none
  | fuel + 1, ts =>
    match ts with
    | .value :: t :: rest =>
      if endsMapValue t then some (.empty, t :: rest)
      else ofTokens? handles fuel true true (t :: rest)
    | [.value] => none
    | [] => none
    | ts => some (.empty, ts)

/-- The items of a sequence in brackets. A key and its value in one make a mapping of one entry. -/
def flowItems? (handles : Handles) :
    Nat → (first : Bool) → List Tree → List Token → Option (List Tree × List Token)
  | 0, _, _, _ => none
  | fuel + 1, first, acc, ts =>
    match ts with
    | .flowSequenceEnd :: rest => some (acc.reverse, rest)
    | ts => do
      let ts ← if first then some ts else
        match ts with
        | .flowEntry :: rest => some rest
        | _ => none
      match ts with
      | [] => none
      | .flowSequenceEnd :: rest => return (acc.reverse, rest)
      | .key :: rest =>
        let (entry, rest) ← flowPair? handles fuel rest
        flowItems? handles fuel false (.map {} [entry] :: acc) rest
      | ts =>
        let (n, rest) ← ofTokens? handles fuel false false ts
        flowItems? handles fuel false (n :: acc) rest

/-- The key and value of a single entry. Where no key is written the mark that stands there is passed
over. -/
def flowPair? (handles : Handles) : Nat → List Token → Option ((Tree × Tree) × List Token)
  | 0, _ => none
  | fuel + 1, ts =>
    match ts with
    | [] => none
    | t :: rest => do
      let (k, rest) ←
        if t = .value || endsFlowItem t then some (.empty, rest)
        else ofTokens? handles fuel false false (t :: rest)
      match rest with
      | [] => none
      | .value :: u :: more =>
        if endsFlowItem u then return ((k, .empty), u :: more)
        else
          let (v, rest) ← ofTokens? handles fuel false false (u :: more)
          return ((k, v), rest)
      | [.value] => none
      | rest => return ((k, .empty), rest)

/-- The entries of a mapping in braces. -/
def flowEntries? (handles : Handles) :
    Nat → (first : Bool) → List (Tree × Tree) → List Token →
      Option (List (Tree × Tree) × List Token)
  | 0, _, _, _ => none
  | fuel + 1, first, acc, ts =>
    match ts with
    | .flowMappingEnd :: rest => some (acc.reverse, rest)
    | ts => do
      let ts ← if first then some ts else
        match ts with
        | .flowEntry :: rest => some rest
        | _ => none
      match ts with
      | [] => none
      | .flowMappingEnd :: rest => return (acc.reverse, rest)
      | .key :: t :: rest =>
        let (k, rest) ←
          if t = .value || endsFlowValue t then some (.empty, t :: rest)
          else ofTokens? handles fuel false false (t :: rest)
        match rest with
        | [] => none
        | .value :: u :: more =>
          let (v, rest) ←
            if endsFlowValue u then some (.empty, u :: more)
            else ofTokens? handles fuel false false (u :: more)
          flowEntries? handles fuel false ((k, v) :: acc) rest
        | [.value] => none
        | rest => flowEntries? handles fuel false ((k, .empty) :: acc) rest
      | [.key] => none
      | ts =>
        let (k, rest) ← ofTokens? handles fuel false false ts
        flowEntries? handles fuel false ((k, .empty) :: acc) rest

end

end Node

/-- Directives before a document: at most one version, of YAML 1.1 or 1.2, and each handle once. -/
def directives? : Nat → (versioned : Bool) → Handles → List Token → Option (Handles × List Token)
  | 0, _, _, _ => none
  | fuel + 1, versioned, handles, ts =>
    match ts with
    | .version major minor :: rest =>
      if versioned || major != 1 || (minor != 1 && minor != 2) then none
      else directives? fuel true handles rest
    | .tagDirective handle expansion :: rest =>
      if (handles.lookup handle).isSome then none
      else directives? fuel versioned (handles ++ [(handle, expansion)]) rest
    | ts => some (handles ++ defaultHandles, ts)

/-- What a stream goes on with. -/
inductive StreamStep where
  | finished
  | document (root : Tree) (rest : List Token)
  | bad

def isDirective : Token → Bool
  | .version _ _ | .tagDirective _ _ => true
  | _ => false

/-- Whether an explicit document is empty before this token. -/
def endsDocument : Token → Bool
  | .documentStart | .documentEnd | .streamEnd => true
  | t => isDirective t

/-- The document at the front of the tokens. Only the first may lack its `---`. -/
def streamStep (first : Bool) (ts : List Token) : StreamStep :=
  let fuel := 4 * ts.length + 4
  let ts := if first then ts else ts.dropWhile (· = .documentEnd)
  let finish (root : Tree) (rest : List Token) : StreamStep :=
    match rest with
    | [] => .bad
    | .documentEnd :: rest => .document root rest
    | rest => .document root rest
  match ts with
  | [] => .bad
  | .streamEnd :: _ => .finished
  | t :: _ =>
    if first && !isDirective t && t != .documentStart then
      match Node.ofTokens? defaultHandles fuel true false ts with
      | some (root, rest) => finish root rest
      | none => .bad
    else
      match directives? fuel false [] ts with
      | some (handles, .documentStart :: u :: rest) =>
        if endsDocument u then finish .empty (u :: rest)
        else
          match Node.ofTokens? handles fuel true false (u :: rest) with
          | some (root, rest) => finish root rest
          | none => .bad
      | _ => .bad

/-- All documents; none stands for a bad one, after which nothing is read. The fuel bounds their
number. -/
def documentsFrom : Nat → (first : Bool) → List Token → List (Option Document)
  | 0, _, _ => []
  | fuel + 1, first, ts =>
    match streamStep first ts with
    | .finished => []
    | .bad => [none]
    | .document root rest =>
      match root.document? with
      | some d => some d :: documentsFrom fuel false rest
      | none => [none]

/-- The documents of a text. An empty text has one, without a root. -/
def documents (text : String) : List (Option Document) :=
  let ts := tokens text
  match documentsFrom (ts.length + 1) true ts with
  | [] => [some ⟨none, []⟩]
  | docs => docs

end Addons.Yaml
