import Addons.Store.Exchange
import Addons.Store.Session

/-!
# Sessions with a cluster

A session is carried out by requests to the API server. Where a type is served, and whether its objects
have namespaces, is asked of the server once per type.
-/

namespace Addons

/-- Where the objects of a type are found. -/
structure Served where
  group : String
  apiVersion : String
  plural : String
  namespaced : Bool
  deriving DecidableEq, Repr, Inhabited

namespace Served

/-- One entry of the list of what a group version serves. -/
structure Entry where
  name : String
  kind : String
  namespaced : Bool
  group : Option String
  version : Option String

def Entry.ofJson? (j : Json) : Option Entry := do
  let r ← Record.named? j
  let text (name : String) : Option String := return (← r.optional? name Json.str?).getD ""
  let texts (name : String) := r.optional? name (Json.array? Json.str?)
  let _ ← texts "categories"
  let _ ← texts "shortNames"
  let _ ← text "singularName"
  let _ ← texts "verbs"
  return {
    name := ← text "name"
    kind := ← text "kind"
    namespaced := (← r.optional? "namespaced" Json.bool?).getD false
    group := ← r.optional? "group" Json.str?
    version := ← r.optional? "version" Json.str? }

/-- Group and version of a text; a group is what stands before the first slash. -/
def splitGroupVersion (s : String) : String × String :=
  match Text.splitFirst? '/' s.toList with
  | some (group, version) => (String.ofList group, String.ofList version)
  | none => ("", s)

/-- The list of what a group version serves: its name and its entries. -/
def listing? (j : Json) : Option (String × List Entry) := do
  let r ← Record.named? j
  let fits (field expected : String) : Bool := (r.field? field).all fun v => v.str? = some expected
  if !(fits "apiVersion" "v1" && fits "kind" "APIResourceList") then none
  return ((← r.optional? "groupVersion" Json.str?).getD "",
    (← r.optional? "resources" (Json.array? Entry.ofJson?)).getD [])

/-- The entry of a kind that is no part of another resource. -/
def find? (j : Json) (kind : String) : Option Served := do
  let (groupVersion, entries) ← listing? j
  let e ← entries.find? fun e => e.kind = kind && !e.name.toList.contains '/'
  let (group, version) := splitGroupVersion groupVersion
  return {
    group := e.group.getD group
    apiVersion := if group.isEmpty then version else s!"{group}/{version}"
    plural := e.name
    namespaced := (entries.find? fun f => f.name = e.name).any Entry.namespaced }

/-- The path of all objects, or of those of a namespace. -/
def path (s : Served) (ns : Option String) : String :=
  let root := if s.group.isEmpty then "api" else "apis"
  let scope := match ns with
    | some ns => s!"namespaces/{ns}/"
    | none => ""
  s!"/{root}/{s.apiVersion}/{scope}{s.plural}"

end Served

/-- The path under which a group version lists what it serves. -/
def TypeRef.discoveryPath (t : TypeRef) : String :=
  if t.group.isEmpty then s!"/api/{t.version}" else s!"/apis/{t.group}/{t.version}"

/-- What is known of the server. -/
structure Cluster where
  timeout : Span := .ofSeconds 60
  served : List (TypeRef × Served) := []
  deriving Inhabited

/-- Exchanges that learn about the server and may fail. -/
abbrev Client := ExceptT Error (StateT Cluster Exchange)

namespace Client

variable {α : Type}

/-- Who is noted as the writer of objects. -/
def fieldManager : Table String String := [("fieldManager", "stowage")]

def jsonType : String := "application/json"

/-- Send a request; a refusal is classified against what it was about. -/
def send (r : Request) (key : Option String) : Client Json := do
  if !r.isSendable then throw (.api none)
  let timeout := Error.timeout s!"{(← get).timeout.seconds}s"
  let answer ← (Exchange.request r : Exchange Response)
  match answer.body timeout key with
  | .ok body => return body
  | .error e => throw e

/-- What a body is read as; one that does not fit is an error of the API. -/
def decode (read : Json → Option α) (body : Json) : Client α :=
  match read body with
  | some a => return a
  | none => throw (.api none)

/-- Where a type is served. -/
def resolve (t : TypeRef) : Client Served := do
  match (← get).served.lookup t with
  | some s => return s
  | none =>
    let listing ← send { method := .get, path := t.discoveryPath } (some t.display)
    let s ← decode (fun j => Served.find? j t.kind) listing
    modify fun c => { c with served := (t, s) :: c.served }
    return s

/-- The path of the objects around a single one. -/
def collection (k : Key) : Client String := do
  let s ← resolve k.type
  match s.namespaced, k.ns with
  | true, none => throw (.invalidObject s!"{k.display} is namespaced but no namespace was given")
  | true, some ns => return s.path (some ns)
  | false, _ => return s.path none

/-- The path of an object, which has to have a name. -/
def single (k : Key) : Client String := do
  let path ← collection k
  if k.name.isEmpty then throw (.api none)
  return s!"{path}/{k.name}"

def read (k : Key) : Client Object := do
  let path ← single k
  decode Object.ofJson? (← send { method := .get, path } (some k.display))

/-- Whether a value may stand as the metadata of a list. -/
def isListMetadata (j : Json) : Bool :=
  (do
    let r ← Record.named? j
    let _ ← r.optional? "continue" Json.str?
    let _ ← r.optional? "remainingItemCount" Json.int64?
    let _ ← r.optional? "resourceVersion" Json.str?
    r.optional? "selfLink" Json.str?).isSome

/-- The objects of a list; those without a type are of the type of the list. -/
def items? (t : TypeRef) (j : Json) : Option (List Object) := do
  let metadata := (j.get? "metadata").getD (.obj [])
  if !isListMetadata metadata then none
  let items ← match ← j.get? "items" with
    | .null => some []
    | items => Json.array? Object.ofJson? items
  return items.map fun o => { o with type := some (o.type.getD t) }

def list (t : TypeRef) (ns selector : Option String) : Client (List Object) := do
  let s ← resolve t
  let path := s.path (if s.namespaced then ns else none)
  let query := match selector with
    | some selector => [("labelSelector", selector)]
    | none => []
  decode (items? t) (← send { method := .get, path, query } (some t.display))

def create (o : Object) : Client Object := do
  let k ← MonadExcept.ofExcept o.key
  let path ← collection k
  decode Object.ofJson? (← send
    { method := .post, path, query := fieldManager, body := some (jsonType, o.toJson) } (some k.display))

def update (o : Object) : Client Object := do
  let k ← MonadExcept.ofExcept o.key
  if o.metadata.resourceVersion.isNone then
    throw (.invalidObject s!"update of {k.display} requires a resourceVersion")
  let path ← single k
  decode Object.ofJson? (← send
    { method := .put, path, query := fieldManager, body := some (jsonType, o.toJson) } (some k.display))

/-- One of the causes of a status. -/
def statusCause? (j : Json) : Option Unit := do
  let names := ["reason", "message", "field"]
  let r ← Record.read? names j
  for name in names do
    let _ ← r.default? name Json.str? ""

/-- What a status may say about the object it is on. -/
def statusDetails? (j : Json) : Option Unit := do
  let names := ["name", "group", "kind", "uid"]
  let r ← Record.read? (names ++ ["causes", "retryAfterSeconds"]) j
  for name in names do
    let _ ← r.default? name Json.str? ""
  let _ ← r.default? "causes" (Json.array? statusCause?) []
  let _ ← r.default? "retryAfterSeconds" (Json.intIn? 0 (Nat.pow 2 32 - 1)) 0

/-- Whether a body answers a deletion: the deleted object, or a status. -/
def isDeletion (j : Json) : Bool :=
  if j.getStr? "kind" = some "Status" then
    (do
      let r ← Record.named? j
      let _ ← r.optional? "status" (Json.variant? fun s =>
        if s = "Success" || s = "Failure" then some s else none)
      let _ ← r.default? "message" Json.str? ""
      let _ ← r.default? "reason" Json.str? ""
      let _ ← r.optional? "details" statusDetails?
      r.default? "code" (Json.intIn? 0 65535) 0).isSome
  else (Object.ofJson? j).isSome

def delete (k : Key) (p : Propagation) : Client Unit := do
  let path ← single k
  let options := Json.ofFields [("propagationPolicy", .str p.name)]
  let body ← send { method := .delete, path, body := some (jsonType, options) } (some k.display)
  decode (fun j => if isDeletion j then some () else none) body

/-- Merge a value into an object whose type is served under its conventional name. -/
def merge (k : Key) (part : String) (patch : Json) (manager : Option String) : Client Object := do
  if k.name.isEmpty then throw (.api none)
  let served : Served := ⟨k.type.group, k.type.apiVersion, k.type.plural, true⟩
  let query := match manager with
    | some m => [("fieldManager", m)]
    | none => []
  let body ← send
    { method := .patch, path := s!"{served.path k.ns}/{k.name}{part}", query,
      body := some ("application/merge-patch+json", patch) } none
  decode Object.ofJson? body

/-- The outcome of a request as a value. -/
def attempt (c : Client α) : Client (Except Error α) := fun s => do
  let (r, s) ← c.run s
  return (.ok r, s)

end Client

/-- Carry a session out by requests. Waiting takes no request, and measurements go elsewhere. -/
def Session.overApi {α : Type} : Session α → Client α
  | .done r => MonadExcept.ofExcept r
  | .get k next => do
    let r ← (Client.read k).attempt
    overApi (next r)
  | .list t ns selector next => do
    let r ← (Client.list t ns selector).attempt
    overApi (next r)
  | .create o next => do
    let r ← (Client.create o).attempt
    overApi (next r)
  | .update o next => do
    let r ← (Client.update o).attempt
    overApi (next r)
  | .delete k p next => do
    let r ← (Client.delete k p).attempt
    overApi (next r)
  | .setFinalizers k names next => do
    let patch := Json.ofFields
      [("metadata", Json.ofFields [("finalizers", .arr (names.map Json.str))])]
    let r ← (Client.merge k "" patch none).attempt
    overApi (next r)
  | .mergeStatus k status manager next => do
    let r ← (Client.merge k "/status" (Json.ofFields [("status", status)]) manager).attempt
    overApi (next r)
  | .sleep _ next => overApi next
  | .observe _ next => overApi next

end Addons
