import Addons.Yaml.Node.OfTokens
import Addons.Yaml.Scalar

/-!
# YAML documents as JSON values

Mappings become objects whose keys are the texts of the key scalars, and aliases are replaced by what
they stand for. Nesting is bounded, and so is the number of aliases followed.
-/

namespace Addons.Yaml

/-- Collections nest at most this deep. -/
def maxDepth : Nat := 128

/-- Aliases followed so far, in a reading that may fail. -/
abbrev Following := StateT Nat Option

namespace Document

/-- At most a hundred aliases are followed for each step of walking the document. -/
def aliasLimit (d : Document) : Nat := 100 * ((d.root.map Node.steps).getD 1)

/-- The node itself, or the one that an alias stands for. -/
def follow (d : Document) : Node Nat → Following (Node Nat)
  | .alias n => do
    let count ← get
    if count < d.aliasLimit then
      set (count + 1)
      match d.target? n with
      | some target => return target
      | none => failure
    else failure
  | n => return n

/-- The text of a key, which has to be a scalar. -/
def keyText (d : Document) (n : Node Nat) : Following String := do
  match ← d.follow n with
  | .scalar _ _ text => return String.ofList text
  | _ => failure

def coreTag (name : String) : List Char := ("tag:yaml.org,2002:" ++ name).toList

/-- The value of a scalar. Core tags say the type, other global tags say text, and local ones are
refused. -/
def scalarValue? (tag : Option (List Char)) (style : ScalarStyle) (text : List Char) : Option Json :=
  match tag with
  | none => if style = .plain then Scalar.plainValue? text else some (.str (String.ofList text))
  | some t =>
    if t.head? = some '!' then none
    else if t = coreTag "bool" then (Scalar.bool? text).map Json.bool
    else if t = coreTag "int" then (Scalar.int? text).join.map Json.ofInt
    else if t = coreTag "float" then
      if Scalar.isNotFinite text then some .null else (Scalar.float? text).map fun x => .num (.float x)
    else if t = coreTag "null" then (if Scalar.isNull text then some .null else none)
    else some (.str (String.ofList text))

def isLocal (p : Props Nat) : Bool := p.tag.any fun t => t.head? = some '!'

/-- The value of a node with collections nested at most `depth` deep. -/
def value (d : Document) : (depth : Nat) → Node Nat → Following Json
  | 0, n => do
    match ← d.follow n with
    | .scalar p style text => (scalarValue? p.tag style text : Option Json)
    | _ => failure
  | depth + 1, n => do
    match ← d.follow n with
    | .scalar p style text => (scalarValue? p.tag style text : Option Json)
    | .seq p items =>
      if isLocal p then failure
      return .arr (← items.mapM (value d depth))
    | .map p entries =>
      if isLocal p then failure
      let fields ← entries.mapM fun e => do return (← d.keyText e.1, ← value d depth e.2)
      return Json.ofFields fields
    | .alias _ => failure

/-- The JSON value of a document. -/
def toJson? (d : Document) : Option Json :=
  match d.root with
  | none => some .null
  | some root => ((d.value maxDepth root).run 0).map Prod.fst

end Document

end Addons.Yaml
