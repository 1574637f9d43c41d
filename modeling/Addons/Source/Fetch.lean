import Addons.Component.Bundle
import Addons.Source.Address
import Addons.Source.Tree

/-!
# Fetching manifests

A manifest is read from the file system or requested from the web. What goes wrong counts against the
one who declared the address.
-/

namespace Addons

/-- What lies outside: a file system, and the web. -/
structure Outside where
  fileAt : List UInt8 → Except FileFault ByteArray
  /-- Code and body of the answer to a request; none if there is no answer. -/
  get : WebAddress → Option (Nat × ByteArray)

namespace Address

/-- The octets of a file's path. One that ends like the name of a drive gets a slash. -/
def pathBytes (path : List (List Char)) : List UInt8 :=
  let bytes := path.flatMap fun s => Tree.slash :: Percent.decode s
  match bytes.reverse with
  | mark :: letter :: _ :: _ =>
    if (mark = ':'.toUInt8 || mark = '|'.toUInt8) && (Char.ofNat letter.toNat).isAlpha then
      bytes ++ [Tree.slash]
    else bytes
  | _ => bytes

end Address

/-- Read bytes as text, with U+FFFD in place of what is not UTF-8. -/
def Text.ofUtf8Lossy (bytes : List UInt8) : String := String.ofList (go bytes.length bytes)
where
  go : Nat → List UInt8 → List Char
    | 0, _ => []
    | fuel + 1, bytes =>
      match Text.utf8Fault? bytes with
      | none => decoded bytes
      | some f =>
        decoded (bytes.take f.index) ++ Char.ofNat 0xFFFD ::
          (match f.length with
            | some n => go fuel (bytes.drop (f.index + n))
            | none => [])
  decoded (bytes : List UInt8) : List Char :=
    ((String.fromUTF8? ⟨bytes.toArray⟩).map String.toList).getD []

namespace Source

/-- The text at an address. -/
def fetch (outside : Outside) (source : String) : Except Error String := do
  match Address.parse source with
  | .error e => throw (.invalidManifest s!"invalid URL '{source}': {e.message}")
  | .ok (.other scheme) => throw (.invalidManifest s!"unsupported URL scheme '{scheme}' in '{source}'")
  | .ok (.file (some _) _) => throw (.invalidManifest s!"invalid file URL '{source}'")
  | .ok (.file none path) =>
    match outside.fileAt (Address.pathBytes path) with
    | .error fault => throw (.render source fault.message)
    | .ok bytes =>
      match String.fromUTF8? bytes with
      | some text => return text
      | none => throw (.render source FileFault.notText.message)
  | .ok (.web address) =>
    let address := address.requested
    if !address.canBeRequested then
      throw (.render source s!"builder error for url ({address.text})")
    match outside.get address with
    | none => throw (.render source s!"error sending request for url ({address.text})")
    | some (200, body) => return Text.ofUtf8Lossy body.toList
    | some (code, _) => throw (.fetch source code)

/-- Render what an address holds. -/
def renderer (outside : Outside) : Renderer := fun source patches images => do
  let text ← fetch outside source
  match Manifest.render text patches images with
  | .ok rendered => return rendered.toUTF8
  | .error e => throw (.render source e.message)

end Source

end Addons
