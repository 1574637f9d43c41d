import Addons.Codec

/-!
# Patches

A merge patch with the documents it applies to, chosen by kind and, where given, by name and namespace.
-/

namespace Addons

structure PatchTarget where
  kind : String
  name : Option String
  ns : Option String
  deriving DecidableEq, Repr, Inhabited

/-- A JSON merge patch for the documents of a target. -/
structure Patch where
  target : PatchTarget
  body : Json
  deriving Repr, Inhabited

namespace PatchTarget

def selects (t : PatchTarget) (doc : Json) : Bool :=
  let meta? := doc.get? "metadata"
  doc.getStr? "kind" = some t.kind
    && (match t.name with
      | some n => (meta?.bind fun m => m.getStr? "name") = some n
      | none => true)
    && (match t.ns with
      | some n => (meta?.bind fun m => m.getStr? "namespace") = some n
      | none => true)

def ofJson? (j : Json) : Option PatchTarget := do
  let r ← Record.read? ["kind", "name", "namespace"] j
  return ⟨← r.required? "kind" Json.str?, ← r.optional? "name" Json.str?,
    ← r.optional? "namespace" Json.str?⟩

def toJson (t : PatchTarget) : Json :=
  Json.ofFields? [("kind", some (.str t.kind)), ("name", t.name.map Json.str),
    ("namespace", t.ns.map Json.str)]

end PatchTarget

namespace Patch

def ofJson? (j : Json) : Option Patch := do
  let r ← Record.read? ["target", "patch"] j
  return ⟨← r.required? "target" PatchTarget.ofJson?, ← r.required? "patch" some⟩

def toJson (p : Patch) : Json := Json.ofFields [("target", p.target.toJson), ("patch", p.body)]

/-- The same target and the same patch, the two zeros being one number. -/
def same (p q : Patch) : Bool := p.target = q.target && p.body.same q.body

def sameAll : List Patch → List Patch → Bool
  | [], [] => true
  | p :: ps, q :: qs => p.same q && sameAll ps qs
  | _, _ => false

/-- Apply to a document the patches that select it as it is before them. -/
def applyAll (patches : List Patch) (doc : Json) : Json :=
  (patches.filter fun p => p.target.selects doc).foldl (fun d p => d.mergePatch p.body) doc

end Patch

end Addons
