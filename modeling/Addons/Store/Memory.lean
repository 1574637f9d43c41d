import Addons.Store.Session

/-!
# The in-memory store

Objects are kept by group, kind, namespace and name, so that an object is found again under any version
of its API. The store counts requests, keeps a journal of changes, and fails on request.
-/

namespace Addons

/-- Where an object is kept. -/
structure Slot where
  group : String
  kind : String
  /-- Empty for cluster-scoped objects. -/
  ns : String
  name : String
  deriving DecidableEq, Repr, Inhabited

namespace Slot

/-- By group, then kind, then namespace, then name. -/
def lt (a b : Slot) : Prop :=
  a.group < b.group ∨ (a.group = b.group ∧ (a.kind < b.kind ∨ (a.kind = b.kind ∧
    (a.ns < b.ns ∨ (a.ns = b.ns ∧ a.name < b.name)))))

instance : LT Slot := ⟨lt⟩

instance : DecidableLT Slot := fun a b => by
  show Decidable (lt a b)
  unfold lt
  infer_instance

end Slot

def Key.slot (k : Key) : Slot := ⟨k.type.group, k.type.kind, k.ns.getD "", k.name⟩

/-- What a request does. -/
inductive Verb where
  | get
  | list
  | create
  | update
  | delete
  deriving DecidableEq, Repr

namespace Verb

def name : Verb → String
  | .get => "get"
  | .list => "list"
  | .create => "create"
  | .update => "update"
  | .delete => "delete"

def ofName? (s : String) : Option Verb :=
  [get, list, create, update, delete].find? fun v => v.name = s

end Verb

/-- A change of the stored objects. -/
inductive Change where
  | create (key : Key)
  | update (key : Key)
  | delete (key : Key)
  /-- The finalizers of an object were set. -/
  | finalizers (key : Key) (names : List String)
  /-- The status of an object was written. -/
  | status (key : Key)
  deriving DecidableEq, Repr

def Change.text : Change → String
  | .create k => s!"create {k.display}"
  | .update k => s!"update {k.display}"
  | .delete k => s!"delete {k.display}"
  | .finalizers k names => s!"finalizers {k.display} " ++ ",".intercalate names
  | .status k => s!"status {k.display}"

structure Counts where
  gets : Nat := 0
  lists : Nat := 0
  creates : Nat := 0
  updates : Nat := 0
  deletes : Nat := 0
  deriving DecidableEq, Repr, Inhabited

def Counts.count (c : Counts) : Verb → Counts
  | .get => { c with gets := c.gets + 1 }
  | .list => { c with lists := c.lists + 1 }
  | .create => { c with creates := c.creates + 1 }
  | .update => { c with updates := c.updates + 1 }
  | .delete => { c with deletes := c.deletes + 1 }

structure Memory where
  objects : Table Slot Object := []
  counts : Counts := {}
  /-- Changes in the order they were made. -/
  journal : List Change := []
  /-- The last version handed out. The counter has no bound: running over 64 bits is left out. -/
  version : Nat := 0
  /-- Requests that will fail, each once. -/
  failures : List (Verb × String) := []
  /-- The time that is stamped on objects. -/
  now : Instant
  deriving Inhabited

namespace Memory

def object? (m : Memory) (k : Key) : Option Object := m.objects.find? k.slot

/-- All objects of a kind in the order they are kept. -/
def objectsOf (m : Memory) (kind : String) : List Object :=
  (m.objects.filter fun e => e.1.kind = kind).map Prod.snd

/-- Make the next request of a kind fail. -/
def failOn (m : Memory) (v : Verb) (kind : String) : Memory :=
  { m with failures := m.failures ++ [(v, kind)] }

def resetCounts (m : Memory) : Memory := { m with counts := {}, journal := [] }

def versionText (n : Nat) : String := toString n

/-- Put an object into the store as it is but for its version, and a uid and a creation time where it has
none. -/
def seed (m : Memory) (o : Object) : Except Error (Object × Memory) := do
  let n := m.version + 1
  let metadata := { o.metadata with
    resourceVersion := some (versionText n)
    uid := some (o.metadata.uid.getD s!"uid-{n}")
    creationTimestamp := some (o.metadata.creationTimestamp.getD m.now) }
  let o := { o with metadata }
  let k ← o.key
  return (o, { m with version := n, objects := m.objects.insert k.slot o })

/-- Whether a request is to fail, and the failures that are left then. -/
def takeFailure (failures : List (Verb × String)) (v : Verb) (kind : String) :
    Option (List (Verb × String)) :=
  if failures.contains (v, kind) then some (failures.erase (v, kind)) else none

/-- Count a request, and go on unless it is to fail. -/
def request {α : Type} (m : Memory) (v : Verb) (kind : String)
    (go : Memory → Except Error α × Memory) : Except Error α × Memory :=
  let m := { m with counts := m.counts.count v }
  match takeFailure m.failures v kind with
  | some left => (.error (.timeout "injected"), { m with failures := left })
  | none => go m

def get (m : Memory) (k : Key) : Except Error Object × Memory :=
  m.request .get k.type.kind fun m =>
    match m.object? k with
    | some o => (.ok o, m)
    | none => (.error (.notFound k.display), m)

/-- Whether an object in a slot is asked for by a listing. -/
def listed (type : TypeRef) (ns selector : Option String) (slot : Slot) (o : Object) : Bool :=
  slot.group = type.group && slot.kind = type.kind && ns.all (fun n => n = slot.ns)
    && selector.all fun s => Selector.selects s o.metadata

def list (m : Memory) (type : TypeRef) (ns selector : Option String) :
    Except Error (List Object) × Memory :=
  m.request .list type.kind fun m =>
    (.ok ((m.objects.filter fun e => listed type ns selector e.1 e.2).map Prod.snd), m)

/-- What the store notes on an object that it writes. -/
def stamp (now : Instant) : List ManagedFields :=
  [{ manager := some "stowage", operation := some "Update", time := some now }]

def create (m : Memory) (o : Object) : Except Error Object × Memory :=
  match o.key with
  | .error e => (.error e, m)
  | .ok k =>
    m.request .create k.type.kind fun m =>
      match m.object? k with
      | some _ => (.error (.alreadyExists k.display), m)
      | none =>
        let n := m.version + 1
        let stored := { o with
          metadata := { o.metadata with
            uid := some s!"uid-{n}"
            resourceVersion := some (versionText n)
            creationTimestamp := some m.now
            generation := some 1
            managedFields := some (stamp m.now) } }
        (.ok stored, { m with
          version := n
          objects := m.objects.insert k.slot stored
          journal := m.journal ++ [.create k] })

def update (m : Memory) (o : Object) : Except Error Object × Memory :=
  match o.key with
  | .error e => (.error e, m)
  | .ok k =>
    m.request .update k.type.kind fun m =>
      match m.object? k, o.metadata.resourceVersion with
      | none, _ => (.error (.notFound k.display), m)
      | some _, none =>
        (.error (.invalidObject s!"update of {k.display} requires a resourceVersion"), m)
      | some current, some version =>
        if current.metadata.resourceVersion ≠ some version then
          (.error (.conflict k.display s!"stale resourceVersion {version}"), m)
        else
          let n := m.version + 1
          let stored := { o with
            metadata := { o.metadata with
              uid := current.metadata.uid
              creationTimestamp := current.metadata.creationTimestamp
              generation := some (current.metadata.generation.getD 1 + 1)
              managedFields := some (stamp m.now)
              resourceVersion := some (versionText n) } }
          (.ok stored, { m with
            version := n
            objects := m.objects.insert k.slot stored
            journal := m.journal ++ [.update k] })

def delete (m : Memory) (k : Key) : Except Error Unit × Memory :=
  m.request .delete k.type.kind fun m =>
    match m.object? k with
    | none => (.error (.notFound k.display), m)
    | some _ =>
      (.ok (), { m with objects := m.objects.erase k.slot, journal := m.journal ++ [.delete k] })

/-- The object under a new version, with a note in the journal; nothing else of it changes. -/
def putVersion (m : Memory) (k : Key) (o : Object) (change : Change) : Object × Memory :=
  let n := m.version + 1
  let stored := { o with metadata := { o.metadata with resourceVersion := some (versionText n) } }
  (stored, { m with
    version := n
    objects := m.objects.insert k.slot stored
    journal := m.journal ++ [change] })

/-- Set the finalizers of an object. One that is being deleted and has none left goes. -/
def setFinalizers (m : Memory) (k : Key) (names : List String) : Except Error Object × Memory :=
  match m.object? k with
  | none => (.error (.notFound k.display), m)
  | some o =>
    let (stored, m) := m.putVersion k { o with metadata := { o.metadata with finalizers := some names } }
      (.finalizers k names)
    if o.metadata.deletionTimestamp.isSome && names.isEmpty then
      (.ok stored, { m with
        objects := m.objects.erase k.slot
        journal := m.journal ++ [.delete k] })
    else (.ok stored, m)

/-- Merge a status into that of an object. -/
def mergeStatus (m : Memory) (k : Key) (status : Json) : Except Error Object × Memory :=
  match m.object? k with
  | none => (.error (.notFound k.display), m)
  | some o =>
    let merged := ((Table.find? o.data "status").getD .null).mergePatch status
    let (stored, m) := m.putVersion k { o with data := Table.insert "status" merged o.data } (.status k)
    (.ok stored, m)

end Memory

/-- A store with what its clients have measured and how long they have waited. -/
structure Host where
  memory : Memory
  samples : List Sample := []
  /-- Milliseconds that have passed. -/
  elapsed : Nat := 0
  deriving Inhabited

namespace Session

/-- Run a session against the store to its end. -/
def run {α : Type} : Session α → Host → Except Error α × Host
  | done r, h => (r, h)
  | get k next, h =>
    let (r, memory) := h.memory.get k
    run (next r) { h with memory }
  | list t ns sel next, h =>
    let (r, memory) := h.memory.list t ns sel
    run (next r) { h with memory }
  | create o next, h =>
    let (r, memory) := h.memory.create o
    run (next r) { h with memory }
  | update o next, h =>
    let (r, memory) := h.memory.update o
    run (next r) { h with memory }
  | delete k _ next, h =>
    let (r, memory) := h.memory.delete k
    run (next r) { h with memory }
  | setFinalizers k names next, h =>
    let (r, memory) := h.memory.setFinalizers k names
    run (next r) { h with memory }
  | mergeStatus k status _ next, h =>
    let (r, memory) := h.memory.mergeStatus k status
    run (next r) { h with memory }
  | sleep ms next, h => run next { h with elapsed := h.elapsed + ms }
  | observe s next, h => run next { h with samples := h.samples ++ [s] }

end Session

end Addons
