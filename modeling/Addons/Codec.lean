import Addons.Json.Basic
import Addons.Time.Instant

/-!
# Reading structures from JSON

A structure is an object of named fields, or an array of its fields in order. Unknown names are ignored.
A field may be required, may have a default, or may be optional, when null counts as absent.
-/

namespace Addons

/-- The fields of a structure. -/
structure Record where
  fields : Json.Fields
  /-- Whether they were given in order instead of by name. -/
  positional : Bool

namespace Record

/-- The fields of a structure with the given field names. -/
def read? (names : List String) : Json → Option Record
  | .obj fields => some ⟨fields, false⟩
  | .arr items =>
    if items.length ≤ names.length then some ⟨Table.ofList (names.zip items), true⟩ else none
  | _ => none

def field? (r : Record) (name : String) : Option Json := Table.find? r.fields name

/-- A field that has to be there. -/
def required? {α : Type} (r : Record) (name : String) (read : Json → Option α) : Option α :=
  (r.field? name).bind read

/-- A field that has a value when it is absent. -/
def default? {α : Type} (r : Record) (name : String) (read : Json → Option α) (value : α) : Option α :=
  match r.field? name with
  | some j => read j
  | none => some value

/-- A field that may be absent or null. -/
def optional? {α : Type} (r : Record) (name : String) (read : Json → Option α) : Option (Option α) :=
  match r.field? name with
  | some .null => some none
  | some j => (read j).map some
  | none => some none

/-- A field that may be null, and absent only from a structure by names. -/
def nullable? {α : Type} (r : Record) (name : String) (read : Json → Option α) : Option (Option α) :=
  match r.field? name with
  | some .null => some none
  | some j => (read j).map some
  | none => if r.positional then none else some none

end Record

namespace Json

def array? {α : Type} (read : Json → Option α) : Json → Option (List α)
  | .arr items => items.mapM read
  | _ => none

/-- A map of texts. -/
def strings? : Json → Option (Table String String)
  | .obj fields => fields.mapM fun e => e.2.str?.map fun s => (e.1, s)
  | _ => none

/-- An integer within bounds. -/
def intIn? (low high : Int) (j : Json) : Option Int :=
  match j.int? with
  | some i => if low ≤ i ∧ i ≤ high then some i else none
  | none => none

def int64? : Json → Option Int := intIn? (-(Nat.pow 2 63 : Nat)) (Nat.pow 2 63 - 1 : Nat)

def int32? : Json → Option Int := intIn? (-(Nat.pow 2 31 : Nat)) (Nat.pow 2 31 - 1 : Nat)

def word64? (j : Json) : Option Nat := (intIn? 0 (Nat.pow 2 64 - 1 : Nat) j).map Int.toNat

/-- One of a few names, by itself or as the only field of an object. -/
def variant? {α : Type} (ofName? : String → Option α) : Json → Option α
  | .str s => ofName? s
  | .obj [(s, .null)] => ofName? s
  | _ => none

def instant? (j : Json) : Option Instant := j.str?.bind Instant.parse?

def span? (j : Json) : Option Span := j.str?.bind Span.parse?

end Json

end Addons
