import Addons.Schema.Basic
import Addons.Yaml.Value

/-!
# Reading YAML by a schema

Where a schema says what a value is, its YAML text is read as that: `5` and `null` are texts where a text
is expected. Fields that a schema does not name are passed over.
-/

namespace Addons.Schema

open Yaml

/-- Nothing is written here, or an empty plain scalar. -/
def isBlank : Node Nat → Bool
  | .scalar _ .plain [] => true
  | _ => false

/-- Whether the characters of a scalar may be read as a value of the type with a core tag: if plain, or
if a literal block with that tag. -/
def readsAs (tag : String) (p : Props Nat) : ScalarStyle → Bool
  | .plain => true
  | .literal => p.tag = some (Document.coreTag tag)
  | _ => false

def boolOf? : Node Nat → Option Json
  | .scalar p style cs =>
    if readsAs "bool" p style then (Scalar.bool? cs).map Json.bool else none
  | _ => none

/-- A signed integer of 64 bits. -/
def intOf? : Node Nat → Option Json
  | .scalar p style cs =>
    if readsAs "int" p style then
      ((Scalar.unsigned? (Nat.pow 2 63 - 1) cs).map Int.ofNat).or
        ((Scalar.negative? (Nat.pow 2 63) cs).map fun n => -Int.ofNat n) |>.map Json.ofInt
    else none
  | _ => none

def countOf? : Node Nat → Option Json
  | .scalar p style cs =>
    if readsAs "int" p style then (Scalar.unsigned? (Nat.pow 2 64 - 1) cs).map Json.ofNat else none
  | _ => none

def textOf? : Node Nat → Option Json
  | .scalar _ _ cs => some (.str (String.ofList cs))
  | _ => none

/-- A name written as a scalar, or as the local tag of a null. -/
def choiceOf? : Node Nat → Option Json
  | .scalar p style cs =>
    match p.tag with
    | some ('!' :: name) =>
      if style = .plain ∧ (cs.isEmpty ∨ Scalar.isNull cs) then some (.str (String.ofList name))
      else none
    | _ => some (.str (String.ofList cs))
  | _ => none

/-- Whether a node says that there is no value; none if it contradicts itself. -/
def isAbsent? : Node Nat → Option Bool
  | .scalar p .plain cs =>
    match p.tag with
    | none => some (cs.isEmpty || Scalar.isNull cs)
    | some t =>
      if t = Document.coreTag "null" then (if Scalar.isNull cs then some true else none)
      else some false
  | _ => some false

mutual

/-- The value of a node under a schema, with collections nested at most `depth` deep. -/
def valueOf (d : Document) : Schema → (depth : Nat) → Node Nat → Following Json
  | .text, _, n | .time, _, n => do (textOf? (← d.follow n) : Option Json)
  | .bool, _, n => do (boolOf? (← d.follow n) : Option Json)
  | .int, _, n => do (intOf? (← d.follow n) : Option Json)
  | .count, _, n => do (countOf? (← d.follow n) : Option Json)
  | .free, depth, n => d.value depth n
  | .choice _ _, _, n => do (choiceOf? (← d.follow n) : Option Json)
  | .optional s, depth, n => do
    let n ← d.follow n
    if ← (isAbsent? n : Option Bool) then return .null else valueOf d s depth n
  | .list items, depth, n => do
    match ← d.follow n, depth with
    | .seq _ ns, depth + 1 => return .arr (← ns.mapM (valueOf d items depth))
    | n, _ => if isBlank n then return .arr [] else failure
  | .record _ properties, depth, n => do
    match ← d.follow n, depth with
    | .map _ entries, depth + 1 =>
      let named ← entries.mapM fun e => do return (← d.keyText e.1, e.2)
      return Json.ofFields (← fieldsOf d properties depth named)
    | n, _ => if isBlank n then return Json.ofFields [] else failure

/-- The fields that a record's schema names, each of which may be given once. -/
def fieldsOf (d : Document) : List (Property Schema) → (depth : Nat) → List (String × Node Nat) →
    Following (List (String × Json))
  | [], _, _ => return []
  | ⟨name, _, _, _, schema⟩ :: rest, depth, named => do
    match named.filter fun e => e.1 = name with
    | [] => fieldsOf d rest depth named
    | [(_, n)] => return (name, ← valueOf d schema depth n) :: (← fieldsOf d rest depth named)
    | _ => failure

end

/-- The value of a text that holds one document. -/
def ofYaml? (s : Schema) (source : String) : Option Json :=
  match Yaml.documents source with
  | [some d] => ((valueOf d s maxDepth (d.root.getD .empty)).run 0).map Prod.fst
  | _ => none

end Addons.Schema
