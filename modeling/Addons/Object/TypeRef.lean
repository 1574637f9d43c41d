import Addons.Manifest.Tracked

/-!
# Types and keys of objects

A type is an API version and a kind. A key adds the name and, for namespaced objects, the namespace.
-/

namespace Addons

structure TypeRef where
  apiVersion : String
  kind : String
  deriving DecidableEq, Repr, Inhabited

namespace TypeRef

/-- The API group; empty for the core group. -/
def group (t : TypeRef) : String := (splitApiVersion t.apiVersion).1

def version (t : TypeRef) : String := (splitApiVersion t.apiVersion).2

def display (t : TypeRef) : String := s!"{t.kind}.{t.apiVersion}"

def isVowel (c : Char) : Bool := ['a', 'e', 'i', 'o', 'u'].contains c

/-- Words whose plural follows no rule. -/
def irregularPlurals : List (String × String) :=
  [("endpoints", "endpoints"), ("endpointslices", "endpointslices"), ("nodemetrics", "nodes"),
   ("podmetrics", "pods")]

/-- The conventional plural of a lower-case word. A final `y` counts as after a consonant if the
character at the place before it, counted in octets, is one. -/
def pluralOf (word : String) : String :=
  let cs := word.toList
  let last := cs.getLast?
  let beforeLast := cs.reverse[1]?
  if let some plural := irregularPlurals.lookup word then plural
  else if last = some 's' || last = some 'x' || last = some 'z'
      || (last = some 'h' && (beforeLast = some 'c' || beforeLast = some 's')) then word ++ "es"
  else
    let place := if word.utf8ByteSize < 2 then none else cs[word.utf8ByteSize - 2]?
    if last = some 'y' && place.any (fun c => !isVowel c) then String.ofList cs.dropLast ++ "ies"
    else word ++ "s"

/-- The plural under which the API serves a kind, by convention. -/
def plural (t : TypeRef) : String := pluralOf (String.ofList (t.kind.toList.map Char.toLower))

end TypeRef

/-- The identity of an object. -/
structure Key where
  type : TypeRef
  ns : Option String
  name : String
  deriving DecidableEq, Repr, Inhabited

namespace Key

def display (k : Key) : String :=
  match k.ns with
  | some ns => s!"{k.type.kind} {ns}/{k.name}"
  | none => s!"{k.type.kind} {k.name}"

def ofTracked (t : Tracked) : Key := ⟨⟨t.apiVersion, t.kind⟩, t.ns, t.name⟩

def tracked (k : Key) : Tracked := Tracked.new k.type.apiVersion k.type.kind k.name k.ns

end Key

end Addons
