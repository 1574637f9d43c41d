import Addons.Codec
import Addons.Error
import Addons.Json.Writer

/-!
# Exchanges with an API server

A client of the API server sends requests and goes on by the responses. A response that refuses a request
says why by a status.
-/

namespace Addons

inductive Method where
  | get
  | post
  | put
  | patch
  | delete
  deriving DecidableEq, Repr

def Method.name : Method → String
  | .get => "GET"
  | .post => "POST"
  | .put => "PUT"
  | .patch => "PATCH"
  | .delete => "DELETE"

structure Request where
  method : Method
  path : String
  query : Table String String := []
  /-- The type and the value of what is sent along. -/
  body : Option (String × Json) := none
  deriving Repr

inductive Response where
  | answer (status : Nat) (body : Json)
  /-- No answer comes in time. -/
  | hang
  deriving Repr

/-- Requests, each with what is done on every response. -/
inductive Exchange (α : Type) where
  | done (a : α)
  | send (r : Request) (next : Response → Exchange α)

namespace Exchange

variable {α β σ : Type}

def bind : Exchange α → (α → Exchange β) → Exchange β
  | done a, f => f a
  | send r next, f => send r fun a => bind (next a) f

instance : Monad Exchange where
  pure := done
  bind := bind

/-- Send a request. -/
def request (r : Request) : Exchange Response := send r done

/-- Have a server answer an exchange to its end. -/
def run (respond : Request → σ → Response × σ) : Exchange α → σ → α × σ
  | done a, s => (a, s)
  | send r next, s =>
    let (a, s) := respond r s
    run respond (next a) s

end Exchange

/-- Whether a character may stand in a path as it is. -/
def isPathChar (c : Char) : Bool :=
  let n := c.toNat
  n = 0x21 || n = 0x22 || (0x24 ≤ n && n ≤ 0x3B) || n = 0x3D || (0x40 ≤ n && n ≤ 0x5F)
    || (0x61 ≤ n && n ≤ 0x7E) || 0x80 ≤ n

def Request.isSendable (r : Request) : Bool := r.path.toList.all isPathChar

namespace ApiStatus

/-- A text between quotes, with the quotes and backslashes inside marked. -/
def quoted (s : String) : String :=
  let escape (c : Char) : List Char :=
    match c with
    | '"' => ['\\', '"']
    | '\\' => ['\\', '\\']
    | '\n' => ['\\', 'n']
    | '\r' => ['\\', 'r']
    | '\t' => ['\\', 't']
    | c => [c]
  "\"" ++ String.ofList (s.toList.flatMap escape) ++ "\""

/-- The status that a body says. -/
def ofJson? (j : Json) : Option ApiStatus := do
  let r ← Record.read? ["status", "message", "reason", "code"] j
  let _ ← r.required? "status" Json.str?
  return {
    message := ← r.default? "message" Json.str? ""
    reason := ← r.default? "reason" Json.str? ""
    code := (← r.required? "code" (Json.intIn? 0 65535)).toNat }

/-- Why a request was refused; a body that does not say so is quoted. -/
def ofAnswer (status : Nat) (body : Json) : ApiStatus :=
  (ofJson? body).getD ⟨status, "Failed to parse error data", quoted body.text⟩

end ApiStatus

/-- The body of a response, or why there is none. -/
def Response.body (timeout : Error) (key : Option String) : Response → Except Error Json
  | .hang => .error timeout
  | .answer status body =>
    if 400 ≤ status ∧ status < 600 then
      let refusal := ApiStatus.ofAnswer status body
      match key with
      | some key => .error (.ofApi (some refusal) key)
      | none => .error (.api (some refusal))
    else .ok body

end Addons
