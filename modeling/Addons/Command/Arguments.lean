import Addons.Table

/-!
# Command-line arguments

A command declares its flags, its words and the commands below it, and a list of arguments is read by
that declaration from left to right. The first mistake counts. A value that stands in an argument of its
own is looked at when the next argument has been understood, so that an unknown argument after it is
found first.
-/

namespace Addons.Command

inductive FlagUse where
  /-- Takes a text. -/
  | text
  /-- Takes a number of 64 bits. -/
  | number
  | switch
  | help
  | version
  deriving DecidableEq, Repr, Inhabited

structure Flag where
  long : String
  short : Option Char := none
  use : FlagUse
  about : String
  /-- The environment variable that stands in for it. -/
  env? : Option String := none
  fallback : Option String := none
  deriving DecidableEq, Repr, Inhabited

namespace Flag

def takesValue (f : Flag) : Bool := f.use = .text || f.use = .number

def help : Flag := { long := "help", short := some 'h', use := .help, about := "Print help" }

def version : Flag := { long := "version", short := some 'V', use := .version, about := "Print version" }

end Flag

structure Grammar where
  flags : List Flag
  /-- Names of the words that have to be given, in order. -/
  words : List String := []
  /-- Names of the commands below this one. -/
  commands : List String := []
  deriving Repr, Inhabited

inductive Misuse where
  | unknownArgument
  /-- A flag lacks its value. -/
  | missingValue
  /-- A number was expected. -/
  | badValue
  /-- A flag was given twice. -/
  | repeated
  /-- A value was given to a flag that takes none. -/
  | unneededValue
  /-- A word or a command is missing. -/
  | incomplete
  deriving DecidableEq, Repr

def Misuse.message : Misuse → String
  | .unknownArgument => "unexpected argument found"
  | .missingValue => "a value is required but none was supplied"
  | .badValue => "invalid value"
  | .repeated => "an argument cannot be used multiple times"
  | .unneededValue => "unexpected value found; no more were expected"
  | .incomplete => "required arguments were not provided"

/-- Why reading stops before the command can run. -/
inductive Stop where
  | help
  | version
  | misuse (m : Misuse)
  deriving DecidableEq, Repr

/-- A number of 64 bits: digits, perhaps after a plus sign. -/
def number? (s : String) : Option Nat :=
  let digits := match s.toList with
    | '+' :: rest => rest
    | cs => cs
  if digits.isEmpty || !digits.all Char.isDigit then none
  else
    let n := digits.foldl (fun n c => n * 10 + (c.toNat - 48)) 0
    if n < Nat.pow 2 64 then some n else none

/-- What has been read so far. -/
structure Given where
  /-- The values of flags by their long names; a switch has an empty one. -/
  values : List (String × String) := []
  words : List String := []
  /-- A flag whose value is still to come, or to be looked at. -/
  pending : Option (Flag × Option String) := none
  /-- After `--` all arguments are words. -/
  wordsOnly : Bool := false
  deriving Repr, Inhabited

namespace Given

def has (g : Given) (name : String) : Bool := (g.values.lookup name).isSome

/-- A flag that takes a value is given one. -/
def take (g : Given) (f : Flag) : Option String → Except Stop Given
  | none => .error (.misuse .missingValue)
  | some v =>
    if g.has f.long then .error (.misuse .repeated)
    else if f.use = .number ∧ (number? v).isNone then .error (.misuse .badValue)
    else .ok { g with values := (f.long, v) :: g.values }

/-- Look at the value that is pending. -/
def settle (g : Given) : Except Stop Given :=
  match g.pending with
  | none => .ok g
  | some (f, v) => { g with pending := none }.take f v

/-- A flag that takes no value is given. -/
def flip (g : Given) (f : Flag) : Except Stop Given := do
  let g ← g.settle
  match f.use with
  | .help => .error .help
  | .version => .error .version
  | _ => if g.has f.long then .error (.misuse .repeated)
         else .ok { g with values := (f.long, "") :: g.values }

/-- A flag is given, perhaps with a value attached to it. -/
def flag (g : Given) (f : Flag) (attached : Option String) : Except Stop Given :=
  if f.takesValue then do
    let g ← g.settle
    match attached with
    | some v => g.take f (some v)
    | none => .ok { g with pending := some (f, none) }
  else
    match attached with
    | some _ => .error (.misuse .unneededValue)
    | none => g.flip f

/-- Flags by their letters; the first that takes a value has the rest of the letters for it. -/
def letters (flags : List Flag) (g : Given) : List Char → Except Stop Given
  | [] => .ok g
  | c :: rest =>
    match flags.find? fun f => f.short = some c with
    | none => .error (.misuse .unknownArgument)
    | some f =>
      if f.takesValue then
        match rest with
        | [] => g.flag f none
        | '=' :: v => g.flag f (some (String.ofList v))
        | v => g.flag f (some (String.ofList v))
      else do letters flags (← g.flag f none) rest

/-- The flag whose value the next argument is, unless that looks like a flag itself. -/
def awaitsValue (g : Given) : Option Flag :=
  match g.pending with
  | some (f, none) => if g.wordsOnly then none else some f
  | _ => none

end Given

namespace Grammar

/-- A flag with two dashes, from what follows them. -/
def long (s : Grammar) (g : Given) (cs : List Char) : Except Stop Given :=
  let name := String.ofList (cs.takeWhile fun c => c != '=')
  let attached := match cs.dropWhile fun c => c != '=' with
    | _ :: v => some (String.ofList v)
    | [] => none
  match s.flags.find? fun f => f.long = name with
  | some f => g.flag f attached
  | none => .error (.misuse .unknownArgument)

def word (s : Grammar) (g : Given) (arg : String) : Except Stop Given :=
  if g.words.length < s.words.length then do
    let g ← g.settle
    .ok { g with words := g.words ++ [arg] }
  else .error (.misuse .unknownArgument)

/-- One argument that is not the name of a command. -/
def argument (s : Grammar) (g : Given) (arg : String) : Except Stop Given :=
  let value : Except Stop Given :=
    match g.awaitsValue with
    | some f => .ok { g with pending := some (f, some arg) }
    | none => s.word g arg
  if g.wordsOnly then s.word g arg
  else
    match arg.toList with
    | ['-', '-'] => .ok { g with wordsOnly := true }
    | '-' :: '-' :: cs => s.long g cs
    | ['-'] => value
    | '-' :: cs => g.letters s.flags cs
    | _ => value

/-- Read arguments up to the name of a command below this one; what follows it is left to that. -/
def read (s : Grammar) (g : Given) : List String → Except Stop (Given × Option (String × List String))
  | [] => .ok (g, none)
  | arg :: rest =>
    if s.commands.contains arg && !g.wordsOnly && g.awaitsValue.isNone then .ok (g, some (arg, rest))
    else do s.read (← s.argument g arg) rest

/-- All that had to be given has been given. -/
def finish (s : Grammar) (g : Given) : Except Stop Given := do
  let g ← g.settle
  if g.words.length < s.words.length then .error (.misuse .incomplete) else .ok g

/-- Read all arguments of a command that has none below it. -/
def readAll (s : Grammar) (args : List String) : Except Stop Given := do
  s.finish (← s.read {} args).1

end Grammar

end Addons.Command
