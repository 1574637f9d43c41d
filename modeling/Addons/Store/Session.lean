import Addons.Object.Basic

/-!
# Sessions with an object store

A session is what a client of an object store does: it asks for something, looks at the answer and goes
on. It can be run against any store, stopped after any request, and interleaved with other sessions.
-/

namespace Addons

/-- When the dependents of a deleted object go: after it, or before. -/
inductive Propagation where
  | background
  | foreground
  deriving DecidableEq, Repr, Inhabited

def Propagation.name : Propagation → String
  | .background => "Background"
  | .foreground => "Foreground"

/-- One measured installation or removal of a component. -/
structure Sample where
  component : String
  /-- Installed, or removed. -/
  install : Bool
  success : Bool
  deriving DecidableEq, Repr

/-- A client's requests, each with what it does on every answer. -/
inductive Session (α : Type) where
  | done (result : Except Error α)
  | get (key : Key) (next : Except Error Object → Session α)
  | list (type : TypeRef) (ns selector : Option String) (next : Except Error (List Object) → Session α)
  | create (o : Object) (next : Except Error Object → Session α)
  | update (o : Object) (next : Except Error Object → Session α)
  | delete (key : Key) (propagation : Propagation) (next : Except Error Unit → Session α)
  /-- Set the finalizers of an object, leaving all else as it is. -/
  | setFinalizers (key : Key) (names : List String) (next : Except Error Object → Session α)
  /-- Merge a status into that of an object, in the name of a manager. -/
  | mergeStatus (key : Key) (status : Json) (manager : Option String)
      (next : Except Error Object → Session α)
  /-- Wait for some milliseconds. -/
  | sleep (millis : Nat) (next : Session α)
  /-- Report a measurement. -/
  | observe (sample : Sample) (next : Session α)

namespace Session

variable {α β : Type}

/-- Go on with the outcome of a session, good or bad. -/
def andThen : Session α → (Except Error α → Session β) → Session β
  | done r, f => f r
  | get k next, f => get k fun r => andThen (next r) f
  | list t ns sel next, f => list t ns sel fun r => andThen (next r) f
  | create o next, f => create o fun r => andThen (next r) f
  | update o next, f => update o fun r => andThen (next r) f
  | delete k p next, f => delete k p fun r => andThen (next r) f
  | setFinalizers k names next, f => setFinalizers k names fun r => andThen (next r) f
  | mergeStatus k status manager next, f => mergeStatus k status manager fun r => andThen (next r) f
  | sleep ms next, f => sleep ms (andThen next f)
  | observe s next, f => observe s (andThen next f)

def ok (a : α) : Session α := done (.ok a)

def fail (e : Error) : Session α := done (.error e)

def bind (s : Session α) (f : α → Session β) : Session β :=
  s.andThen fun
    | .ok a => f a
    | .error e => fail e

instance : Monad Session where
  pure := ok
  bind := bind

instance : MonadExceptOf Error Session where
  throw := fail
  tryCatch s handle := s.andThen fun
    | .ok a => ok a
    | .error e => handle e

instance : MonadLift (Except Error) Session := ⟨done⟩

/-- The outcome of a session as a value. -/
def attempt (s : Session α) : Session (Except Error α) := s.andThen ok

/-- Ask for an object; an error ends the session. -/
def require (k : Key) : Session Object := get k done

def listAll (t : TypeRef) (ns selector : Option String) : Session (List Object) :=
  list t ns selector done

def createNew (o : Object) : Session Object := create o done

def replace (o : Object) : Session Object := update o done

def remove (k : Key) (p : Propagation) : Session Unit := delete k p done

/-- An object, or none if there is none. -/
def find? (k : Key) : Session (Option Object) :=
  get k fun
    | .ok o => ok (some o)
    | .error e => if e.isNotFound then ok none else fail e

/-- Delete an object if it exists; whether it did. -/
def removeIfExists (k : Key) (p : Propagation) : Session Bool :=
  delete k p fun
    | .ok () => ok true
    | .error e => if e.isNotFound then ok false else fail e

def pause (millis : Nat) : Session Unit := sleep millis (ok ())

def report (sample : Sample) : Session Unit := observe sample (ok ())

/-- Give a session up where it would wait past a number of milliseconds. -/
def within : Nat → Session α → Session (Option (Except Error α))
  | _, done r => ok (some r)
  | limit, get k next => get k fun r => within limit (next r)
  | limit, list t ns sel next => list t ns sel fun r => within limit (next r)
  | limit, create o next => create o fun r => within limit (next r)
  | limit, update o next => update o fun r => within limit (next r)
  | limit, delete k p next => delete k p fun r => within limit (next r)
  | limit, setFinalizers k names next => setFinalizers k names fun r => within limit (next r)
  | limit, mergeStatus k status manager next =>
    mergeStatus k status manager fun r => within limit (next r)
  | limit, sleep ms next =>
    if ms < limit then sleep ms (within (limit - ms) next) else sleep limit (ok none)
  | limit, observe s next => observe s (within limit next)

end Session

end Addons
