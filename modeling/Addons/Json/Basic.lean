import Addons.Table
import Addons.Number.Double

/-!
# JSON values

Objects are tables: their keys strictly increase (`Json.SortedKeys`), so two values are the same
exactly when they are written the same way, the sign of a zero apart.
-/

namespace Addons

/-- A number is an integer of 64 bits or a finite double; `1` and `1.0` differ. -/
inductive Number where
  | int (i : Int)
  | float (x : Double)
  deriving DecidableEq, Repr, Inhabited

def Number.same : Number → Number → Bool
  | .int i, .int j => i = j
  | .float x, .float y => x.same y
  | _, _ => false

inductive Json where
  | null
  | bool (b : Bool)
  | num (n : Number)
  | str (s : String)
  | arr (items : List Json)
  | obj (fields : List (String × Json))
  deriving Repr, Inhabited

namespace Json

/-- The fields of an object. -/
abbrev Fields := Table String Json

mutual

/-- Keys strictly increase in every object of the value. -/
def SortedKeys : Json → Prop
  | .arr items => SortedItems items
  | .obj fields => Table.Sorted fields ∧ SortedValues fields
  | _ => True

def SortedItems : List Json → Prop
  | [] => True
  | j :: rest => SortedKeys j ∧ SortedItems rest

def SortedValues : List (String × Json) → Prop
  | [] => True
  | (_, v) :: rest => SortedKeys v ∧ SortedValues rest

end

mutual

/-- Equality of values, with the two zeros one number. -/
def same : Json → Json → Bool
  | .null, .null => true
  | .bool a, .bool b => a == b
  | .num a, .num b => a.same b
  | .str a, .str b => a == b
  | .arr a, .arr b => sameItems a b
  | .obj a, .obj b => sameFields a b
  | _, _ => false

def sameItems : List Json → List Json → Bool
  | [], [] => true
  | a :: as, b :: bs => same a b && sameItems as bs
  | _, _ => false

def sameFields : List (String × Json) → List (String × Json) → Bool
  | [], [] => true
  | (k, a) :: as, (l, b) :: bs => k == l && same a b && sameFields as bs
  | _, _ => false

end

def ofNat (n : Nat) : Json := .num (.int n)

def ofInt (i : Int) : Json := .num (.int i)

def isNull : Json → Bool
  | .null => true
  | _ => false

def isObj : Json → Bool
  | .obj _ => true
  | _ => false

def str? : Json → Option String
  | .str s => some s
  | _ => none

def bool? : Json → Option Bool
  | .bool b => some b
  | _ => none

def int? : Json → Option Int
  | .num (.int i) => some i
  | _ => none

def arr? : Json → Option (List Json)
  | .arr items => some items
  | _ => none

def obj? : Json → Option Fields
  | .obj fields => some fields
  | _ => none

/-- The value of a field; none too if this is not an object. -/
def get? (j : Json) (k : String) : Option Json :=
  match j with
  | .obj fields => Table.find? fields k
  | _ => none

/-- The text of a field that is a string. -/
def getStr? (j : Json) (k : String) : Option String := (j.get? k).bind str?

/-- An object from fields in any order. -/
def ofFields (fields : List (String × Json)) : Json := .obj (Table.ofList fields)

/-- An object from fields of which some are absent. -/
def ofFields? (fields : List (String × Option Json)) : Json :=
  ofFields (fields.filterMap fun e => e.2.map fun v => (e.1, v))

/-- A string map as an object. -/
def ofStrings (t : Table String String) : Json := .obj (t.map fun e => (e.1, .str e.2))

/-! ## Merge patches

A patch that is an object changes the fields it names: `null` removes one, any other value is merged into it. A patch
that is no object replaces the target. -/

mutual

/-- The target changed by a patch. A target that is no object counts as empty under an object. -/
def mergePatch (target : Json) : Json → Json
  | .obj patch => .obj (mergeFields (target.obj?.getD []) patch)
  | patch => patch

def mergeFields (target : Fields) : List (String × Json) → Fields
  | [] => target
  | (k, .null) :: rest => mergeFields (target.erase k) rest
  | (k, v) :: rest =>
    mergeFields (Table.insert k (mergePatch ((Table.find? target k).getD .null) v) target) rest

end

end Json

end Addons
