import Addons.Digest
import Addons.Error
import Addons.Manifest.Image
import Addons.Manifest.Patch
import Addons.Yaml.Printer
import Addons.Yaml.Value

/-!
# Rendering a manifest

A manifest is a stream of YAML documents, each an object with a kind. Rendering patches the documents,
rewrites their images and writes them out again, the same way for the same input.
-/

namespace Addons.Manifest

/-- What a document of a stream contributes: a list contributes its items that are objects. -/
def itemsOf (index : Nat) (doc : Json) : Except ContentError (List Json) :=
  match doc with
  | .null => .ok []
  | .obj _ =>
    match doc.getStr? "kind" with
    | none => .error (.invalidDocument index "document has no kind")
    | some kind =>
      if kind = "List" then .ok (((doc.get? "items").bind Json.arr?).getD [] |>.filter Json.isObj)
      else .ok [doc]
  | _ => .error (.invalidDocument index "document is not a mapping")

def collect : Nat → List (Option Yaml.Document) → Except ContentError (List Json)
  | _, [] => .ok []
  | index, d :: rest => do
    let some value := d.bind Yaml.Document.toJson? | throw .yaml
    let items ← itemsOf index value
    return items ++ (← collect (index + 1) rest)

/-- The documents of a stream. Empty ones are skipped. -/
def parseDocuments (source : String) : Except ContentError (List Json) :=
  collect 0 (Yaml.documents source)

/-- Documents as one stream. -/
def print (docs : List Json) : String := "---\n".intercalate (docs.map Yaml.print)

/-- A document with the patches and image substitutions that apply to it. -/
def overlay (patches : List Patch) (images : List ImageSubstitution) (doc : Json) : Json :=
  let patched := Patch.applyAll patches doc
  if images.isEmpty then patched else ImageSubstitution.rewrite images patched

/-- The documents that rendering a source writes. -/
def renderDocuments (source : String) (patches : List Patch) (images : List ImageSubstitution) :
    Except ContentError (List Json) := do
  for p in patches do
    if !p.body.isObj then
      throw (.invalidPatch s!"patch for kind '{p.target.kind}' must be an object")
  return (← parseDocuments source).map (overlay patches images)

def render (source : String) (patches : List Patch) (images : List ImageSubstitution) :
    Except ContentError String :=
  (renderDocuments source patches images).map print

/-- The SHA-256 digest of a rendered manifest in hexadecimal. -/
def fingerprint (rendered : ByteArray) : String := Digest.hex (Digest.sha256 rendered.toList)

end Addons.Manifest
