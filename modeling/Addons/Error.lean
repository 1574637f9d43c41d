/-!
# Errors

What can go wrong, by cause. `message` words each cause that this library words itself.
-/

namespace Addons

/-- A manifest or a status that does not fit. -/
inductive ContentError where
  /-- The text is no YAML of the right form. -/
  | yaml
  /-- A value does not fit the type it is read into. -/
  | json
  | invalidDocument (index : Nat) (message : String)
  | invalidPatch (message : String)
  | missingReason (status : String)
  deriving DecidableEq, Repr

/-- What is said of an error in YAML text before the reader's own words. -/
def yamlErrorText : String := "Failed to parse manifest YAML: "

def ContentError.message : ContentError → String
  | .yaml => yamlErrorText
  | .json => "Failed to convert JSON: "
  | .invalidDocument index message => s!"Invalid manifest document {index}: {message}"
  | .invalidPatch message => s!"Invalid patch: {message}"
  | .missingReason status => s!"Status '{status}' requires a non-empty reason"

/-- The status that an API server answers a refused request with. -/
structure ApiStatus where
  code : Nat
  reason : String
  message : String := ""
  deriving DecidableEq, Repr

inductive Error where
  /-- The API server refused a request; without a status the request failed otherwise. -/
  | api (status : Option ApiStatus)
  | notFound (key : String)
  | alreadyExists (key : String)
  | conflict (key message : String)
  | render (url message : String)
  | fetch (url : String) (status : Nat)
  /-- The transport failed. -/
  | http
  | invalidManifest (message : String)
  | invalidObject (message : String)
  | serialization
  | timeout (after : String)
  | io
  | content (e : ContentError)
  | missingNamespace (kind name : String)
  /-- A time beyond the last day of the calendar. -/
  | beyondCalendar
  deriving DecidableEq, Repr

namespace Error

/-- The words of an error; empty where they come from elsewhere. -/
def message : Error → String
  | .api _ => ""
  | .notFound key => s!"{key} not found"
  | .alreadyExists key => s!"{key} already exists"
  | .conflict key message => s!"conflict updating {key}: {message}"
  | .render url message => s!"failed to render manifest '{url}': {message}"
  | .fetch url status => s!"fetching '{url}' returned HTTP {status}"
  | .http => ""
  | .invalidManifest message => s!"invalid manifest: {message}"
  | .invalidObject message => s!"invalid object: {message}"
  | .serialization => ""
  | .timeout after => s!"operation timed out after {after}"
  | .io => ""
  | .content e => e.message
  | .missingNamespace kind name => s!"{kind} {name} has no namespace"
  | .beyondCalendar => "time beyond the calendar"

/-- The object does not exist. -/
def isNotFound : Error → Bool
  | .notFound _ => true
  | .api (some s) => s.code = 404
  | _ => false

def isAlreadyExists : Error → Bool
  | .alreadyExists _ => true
  | .api (some s) => s.code = 409 && s.reason = "AlreadyExists"
  | _ => false

/-- The object has changed since it was read. -/
def isConflict : Error → Bool
  | .conflict _ _ => true
  | .api (some s) => s.code = 409 && s.reason != "AlreadyExists"
  | _ => false

/-- The declared input is at fault, not the cluster. -/
def isInput : Error → Bool
  | .render _ _ | .fetch _ _ | .invalidManifest _ | .content _ => true
  | _ => false

/-- Nothing goes on after it, whatever else would be tried again. -/
def isFatal : Error → Bool
  | .beyondCalendar => true
  | _ => false

/-- A refused request, classified against what it was about. -/
def ofApi (status : Option ApiStatus) (key : String) : Error :=
  match status with
  | none => .api none
  | some s =>
    if s.code = 404 then .notFound key
    else if s.code = 409 then
      (if s.reason = "AlreadyExists" then .alreadyExists key else .conflict key s.message)
    else .api (some s)

end Error

end Addons
