import Addons.Object.Basic

/-!
# Comparing desired and live objects

A desired object is applied when everything it says holds of the live one. The live one may say more.
-/

namespace Addons

mutual

/-- Every field of the first value is in the second with the same value. Lists and scalars have to match
as a whole. -/
def Json.isSubset : Json → Json → Bool
  | .obj want, .obj have_ => isSubsetFields want have_
  | .arr want, .arr have_ => isSubsetItems want have_
  | want, have_ => want.same have_

def Json.isSubsetItems : List Json → List Json → Bool
  | [], [] => true
  | w :: ws, h :: hs => Json.isSubset w h && Json.isSubsetItems ws hs
  | _, _ => false

def Json.isSubsetFields : List (String × Json) → Json.Fields → Bool
  | [], _ => true
  | (k, w) :: rest, live =>
    (match Table.find? live k with
      | some h => Json.isSubset w h
      | none => false) && Json.isSubsetFields rest live

end

/-- Every wanted entry is among the live ones. -/
def isSubsetStrings (want live : Option (Table String String)) : Bool :=
  (want.getD []).all fun e => (live.getD []).find? e.1 = some e.2

namespace Object

/-- The desired fields other than the status, the labels and the annotations are on the live object. -/
def isApplied (desired existing : Object) : Bool :=
  Json.isSubsetFields (desired.data.filter fun e => e.1 != "status") existing.data
    && isSubsetStrings desired.metadata.labels existing.metadata.labels
    && isSubsetStrings desired.metadata.annotations existing.metadata.annotations

/-- The desired object with the version of the live one, its finalizers unless some are desired, and its
annotations where none are desired under the same key. -/
def adopt (desired existing : Object) : Object :=
  let annotations :=
    match existing.metadata.annotations with
    | some live => some (live.union (desired.metadata.annotations.getD []))
    | none => desired.metadata.annotations
  { desired with
    metadata := { desired.metadata with
      resourceVersion := existing.metadata.resourceVersion
      finalizers := desired.metadata.finalizers.or existing.metadata.finalizers
      annotations } }

end Object

end Addons
