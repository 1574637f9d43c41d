import Addons.Source.WebHost

/-!
# Addresses of manifests

An address names a file, a page of the web, or something that cannot be fetched.
-/

namespace Addons

/-- An address with `http` or `https`. Its parts are escaped as they are written. -/
structure WebAddress where
  secure : Bool
  user : List Char
  password : List Char
  host : WebHost
  /-- Absent when it is the usual one. -/
  portNumber : Option Nat
  path : List (List Char)
  query : Option (List Char)
  fragment : Option (List Char)
  deriving Repr, Inhabited

inductive Address where
  /-- A file, with the path in segments. -/
  | file (host : Option WebHost) (path : List (List Char))
  | web (a : WebAddress)
  | other (scheme : String)
  deriving Repr, Inhabited

namespace Address

/-- Schemes whose addresses have hosts of the web, with their usual ports. -/
def usualPort? (scheme : String) : Option Nat :=
  [("http", 80), ("https", 443), ("ftp", 21), ("ws", 80), ("wss", 443)].lookup scheme

/-- The scheme in lower case, and what follows its colon. -/
def splitScheme? (cs : List Char) : Option (String × List Char) :=
  match Text.splitFirst? ':' cs with
  | some (c :: more, rest) =>
    if c.isAlpha && more.all (fun d => d.isAlphanum || ['+', '-', '.'].contains d) then
      some (String.ofList ((c :: more).map Char.toLower), rest)
    else none
  | _ => none

def isSlash (special : Bool) (c : Char) : Bool := c = '/' || (special && c = '\\')

def endsAuthority (special : Bool) (c : Char) : Bool := isSlash special c || c = '?' || c = '#'

def pathSpecials : List Char := [' ', '"', '#', '<', '>', '?', '`', '\x7b', '\x7d']

def userSpecials : List Char := pathSpecials ++ ['/', ':', ';', '=', '@', '[', '\\', ']', '^', '|']

def querySpecials : List Char := [' ', '"', '#', '<', '>', '\'']

def fragmentSpecials : List Char := [' ', '"', '<', '>', '`']

/-- The characters of a host, up to a colon outside brackets. -/
def splitHost (inBrackets : Bool) : List Char → List Char × List Char
  | [] => ([], [])
  | c :: rest =>
    if c = ':' && !inBrackets then ([], c :: rest)
    else
      let (host, rest) := splitHost (if c = '[' then true else if c = ']' then false else inBrackets) rest
      (c :: host, rest)

/-- A number of up to 16 bits after the host; none if there are no digits. -/
def portNumber? : List Char → Except AddressError (Option Nat)
  | [] => .ok none
  | cs =>
    if cs.all Char.isDigit then
      let n := cs.foldl (fun n c => n * 10 + (c.toNat - 48)) 0
      if n < Nat.pow 2 16 then .ok (some n) else .error .badPort
    else .error .badPort

structure Authority where
  user : List Char := []
  password : List Char := []
  host : WebHost
  portNumber : Option Nat
  deriving Repr, Inhabited

/-- What stands between the slashes after a scheme and what follows the host and its number, if anything. -/
def authority (special followed : Bool) (cs : List Char) : Except AddressError Authority := do
  let (login, named, cs) : List Char × Bool × List Char :=
    match Text.splitLast? '@' cs with
    | some (login, rest) => (login, true, rest)
    | none => ([], false, cs)
  let (user, password) := (Text.splitFirst? ':' login).getD (login, [])
  let (hostText, after) := splitHost false cs
  if special && hostText.isEmpty then throw .emptyHost
  let host ← if special then WebHost.parse hostText else WebHost.parseLoose hostText
  let loggedIn := !user.isEmpty || !password.isEmpty
  if hostText.isEmpty && (!after.isEmpty || loggedIn || (named && login.isEmpty && followed)) then
    throw .emptyHost
  let portNumber ← portNumber? ((after.drop 1).takeWhile fun c => c != '\\')
  return ⟨Percent.encode userSpecials user, Percent.encode userSpecials password, host, portNumber⟩

/-- The parts between slashes. -/
def segments (special : Bool) (cs : List Char) : List (List Char) :=
  Text.splitAll '/' (cs.map fun c => if isSlash special c then '/' else c)

def isDot (s : List Char) : Bool := [".", "%2e"].contains (String.ofList (s.map Char.toLower))

def isDoubleDot (s : List Char) : Bool :=
  ["..", ".%2e", "%2e.", "%2e%2e"].contains (String.ofList (s.map Char.toLower))

/-- A path without dot segments: one dot stays in place, and two go up. -/
def walk (path : List (List Char)) : List (List Char) → List (List Char)
  | [] => path
  | s :: rest =>
    let path := if isDoubleDot s then path.dropLast else path
    if isDot s || isDoubleDot s then walk (if rest.isEmpty then path ++ [[]] else path) rest
    else walk (path ++ [s]) rest

/-- The segments of a path that begins with a slash, or lacks it. -/
def pathOf (cs : List Char) : List (List Char) :=
  let cs := match cs with
    | c :: rest => if isSlash true c then rest else c :: rest
    | [] => []
  walk [] ((segments true cs).map (Percent.encode pathSpecials))

/-- What stands before the query and the fragment, and those two. -/
def splitEnd (cs : List Char) : List Char × Option (List Char) × Option (List Char) :=
  let (cs, fragment) : List Char × Option (List Char) :=
    match Text.splitFirst? '#' cs with
    | some (cs, f) => (cs, some f)
    | none => (cs, none)
  match Text.splitFirst? '?' cs with
  | some (cs, q) => (cs, some q, fragment)
  | none => (cs, none, fragment)

def isDrive : List Char → Bool
  | [c, d] => c.isAlpha && (d = ':' || d = '|')
  | _ => false

/-- A file's path without empty segments at its start. -/
def filePath (cs : List Char) : List (List Char) :=
  match (pathOf cs).dropWhile List.isEmpty with
  | [] => [[]]
  | path => path

/-- What follows `file:`. A host is given after two slashes. -/
def afterFile (cs : List Char) : Except AddressError Address :=
  let (cs, _) := splitEnd cs
  match cs with
  | a :: b :: rest =>
    if isSlash true a && isSlash true b then
      let host := rest.takeWhile fun c => !isSlash true c
      if host.isEmpty || isDrive host then .ok (.file none (filePath rest))
      else do
        let h ← WebHost.parse host
        let h := if h = .domain "localhost".toList then none else some h
        return .file h (filePath (rest.dropWhile fun c => !isSlash true c))
    else .ok (.file none (filePath cs))
  | _ => .ok (.file none (filePath cs))

/-- What follows a scheme with hosts of the web, slashes or not. -/
def afterSpecial (scheme : String) (usual : Nat) (cs : List Char) : Except AddressError Address := do
  let cs := cs.dropWhile (isSlash true)
  let rest := cs.dropWhile fun c => !endsAuthority true c
  let a ← authority true (!rest.isEmpty) (cs.takeWhile fun c => !endsAuthority true c)
  if scheme != "http" && scheme != "https" then return .other scheme
  let (path, query, fragment) := splitEnd rest
  return .web {
    secure := scheme = "https", user := a.user, password := a.password, host := a.host
    portNumber := a.portNumber.filter fun n => n != usual
    path := pathOf path
    query := query.map (Percent.encode querySpecials)
    fragment := fragment.map (Percent.encode fragmentSpecials) }

/-- What follows any other scheme; only an authority can be at fault. -/
def afterOther (scheme : String) (cs : List Char) : Except AddressError Address := do
  if let '/' :: '/' :: rest := cs then
    let followed := rest.any (endsAuthority false)
    let _ ← authority false followed (rest.takeWhile fun c => !endsAuthority false c)
  return .other scheme

def isOuterBlank (c : Char) : Bool := c.toNat ≤ 0x20

/-- Read an address. Blanks around it count for nothing, nor do tabs and line ends within. -/
def parse (source : String) : Except AddressError Address :=
  let cs := (source.toList.dropWhile isOuterBlank).reverse.dropWhile isOuterBlank |>.reverse
  let cs := cs.filter fun c => c != '\t' && c != '\n' && c != '\r'
  match splitScheme? cs with
  | none => .error .relative
  | some ("file", rest) => afterFile rest
  | some (scheme, rest) =>
    match usualPort? scheme with
    | some usual => afterSpecial scheme usual rest
    | none => afterOther scheme rest

end Address

namespace WebAddress

/-- The address as a request goes to it: user and password are sent apart from it, if they are text. -/
def requested (a : WebAddress) : WebAddress :=
  let isText (cs : List Char) : Bool := (String.fromUTF8? ⟨(Percent.decode cs).toArray⟩).isSome
  if isText a.user && !(a.user.isEmpty && (a.password.isEmpty || !isText a.password)) then
    { a with user := [], password := [] }
  else a

def text (a : WebAddress) : String :=
  let login := if a.password.isEmpty then a.user else a.user ++ ':' :: a.password
  String.ofList (
    (if a.secure then "https://" else "http://").toList
      ++ (if login.isEmpty then [] else login ++ ['@']) ++ a.host.text
      ++ (match a.portNumber with | some n => ':' :: (toString n).toList | none => [])
      ++ a.path.flatMap (fun s => '/' :: s)
      ++ (match a.query with | some q => '?' :: q | none => [])
      ++ (match a.fragment with | some f => '#' :: f | none => []))

/-- Whether a request can be made of it: some hosts are fine in an address but not in a request. -/
def canBeRequested (a : WebAddress) : Bool :=
  !a.host.text.any fun c => ['"', '`', '\x7b', '\x7d'].contains c

end WebAddress

end Addons
