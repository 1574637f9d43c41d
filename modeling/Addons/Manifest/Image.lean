import Addons.Codec
import Addons.Text

/-!
# Container images

An image reference is a name with an optional tag and an optional digest. A substitution rewrites the
references of one name.
-/

namespace Addons

/-- The parts of an image reference. -/
structure ImageRef where
  name : List Char
  tag : Option (List Char)
  digest : Option (List Char)
  deriving DecidableEq, Repr

namespace ImageRef

/-- Split a reference at its first `@`, and what precedes it at the last `:` of its last segment, so that
a number after the name of a registry is no tag. -/
def split (image : List Char) : ImageRef :=
  let (rest, digest) : List Char × Option (List Char) :=
    match Text.splitFirst? '@' image with
    | some (rest, digest) => (rest, some digest)
    | none => (image, none)
  let (path, last) : List Char × List Char :=
    match Text.splitLast? '/' rest with
    | some (path, last) => (path ++ ['/'], last)
    | none => ([], rest)
  match Text.splitLast? ':' last with
  | some (name, tag) => ⟨path ++ name, some tag, digest⟩
  | none => ⟨rest, none, digest⟩

/-- The reference of its parts. -/
def join (r : ImageRef) : List Char :=
  r.name ++ (match r.tag with | some t => ':' :: t | none => [])
    ++ (match r.digest with | some d => '@' :: d | none => [])

end ImageRef

/-- Rewrites the references of one image name. A new digest wins over a new tag. -/
structure ImageSubstitution where
  name : String
  newName : Option String
  newTag : Option String
  digest : Option String
  deriving DecidableEq, Repr, Inhabited

namespace ImageSubstitution

/-- The rewritten reference; none if it has another name. -/
def rewritten? (sub : ImageSubstitution) (image : String) : Option String :=
  let r := ImageRef.split image.toList
  if r.name = sub.name.toList then
    let name := (sub.newName.getD sub.name).toList
    let rewritten : ImageRef :=
      match sub.digest, sub.newTag with
      | some digest, _ => ⟨name, none, some digest.toList⟩
      | none, some tag => ⟨name, some tag.toList, none⟩
      | none, none => { r with name }
    some (String.ofList rewritten.join)
  else none

/-- The reference rewritten by the first substitution of its name. -/
def applyFirst? (subs : List ImageSubstitution) (image : String) : Option String :=
  subs.findSome? fun sub => sub.rewritten? image

def fieldNames : List String := ["name", "newName", "newTag", "digest"]

def ofJson? (j : Json) : Option ImageSubstitution := do
  let r ← Record.read? fieldNames j
  return ⟨← r.required? "name" Json.str?, ← r.optional? "newName" Json.str?,
    ← r.optional? "newTag" Json.str?, ← r.optional? "digest" Json.str?⟩

def toJson (s : ImageSubstitution) : Json :=
  Json.ofFields? [("name", some (.str s.name)), ("newName", s.newName.map Json.str),
    ("newTag", s.newTag.map Json.str), ("digest", s.digest.map Json.str)]

/-- Rewrite the image of a container. -/
def rewriteContainer (subs : List ImageSubstitution) (container : Json) : Json :=
  match container, container.getStr? "image" with
  | .obj fields, some image =>
    match applyFirst? subs image with
    | some rewritten => .obj (Table.insert "image" (.str rewritten) fields)
    | none => container
  | _, _ => container

/-- Whether a field holds a list of containers. -/
def isContainerKey (k : String) : Bool := k = "containers" || k = "initContainers"

mutual

/-- Rewrite the images of all containers in a document, at any depth. -/
def rewrite (subs : List ImageSubstitution) : Json → Json
  | .arr items => .arr (rewriteItems subs items)
  | .obj fields => .obj (rewriteFields subs fields)
  | j => j

def rewriteItems (subs : List ImageSubstitution) : List Json → List Json
  | [] => []
  | j :: rest => rewrite subs j :: rewriteItems subs rest

/-- The items of a list of containers. -/
def rewriteContainers (subs : List ImageSubstitution) : List Json → List Json
  | [] => []
  | j :: rest => rewriteContainer subs (rewrite subs j) :: rewriteContainers subs rest

def rewriteFields (subs : List ImageSubstitution) : List (String × Json) → List (String × Json)
  | [] => []
  | (k, .arr items) :: rest =>
    let items := if isContainerKey k then rewriteContainers subs items else rewriteItems subs items
    (k, .arr items) :: rewriteFields subs rest
  | (k, v) :: rest => (k, rewrite subs v) :: rewriteFields subs rest

end

end ImageSubstitution

end Addons
