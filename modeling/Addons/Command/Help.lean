import Addons.Command.Arguments

/-!
# Help pages

What `--help` prints about a command: what it does, how it is called, and what may be given to it.
-/

namespace Addons.Command

structure Page where
  about : String
  usage : String
  /-- Commands and words, under their headings. -/
  tables : List (String × List (String × String)) := []
  flags : List Flag := []
  /-- Each flag is explained on a line of its own. -/
  stacked : Bool := false
  deriving Repr, Inhabited

def spaces (n : Nat) : String := String.ofList (List.replicate n ' ')

namespace Flag

/-- The name under which help speaks of a flag's value. -/
def valueName (f : Flag) : String :=
  String.ofList (f.long.toList.map fun c => if c = '-' then '_' else c.toUpper)

/-- How a flag is written. -/
def form (f : Flag) : String :=
  (match f.short with
    | some c => String.ofList ['-', c, ',', ' ']
    | none => spaces 4)
    ++ "--" ++ f.long ++ (if f.takesValue then " <" ++ f.valueName ++ ">" else "")

/-- What a flag is for, what stands in for it, and what holds without it. -/
def explanation (f : Flag) : String :=
  f.about ++ (match f.env? with | some v => " [env: " ++ v ++ "=]" | none => "")
    ++ (match f.fallback with | some v => " [default: " ++ v ++ "]" | none => "")

end Flag

namespace Page

/-- A table of two columns. -/
def columns (rows : List (String × String)) : String :=
  let width := (rows.map fun r => r.1.length).foldl max 0
  String.join (rows.map fun r => spaces 2 ++ r.1 ++ spaces (width - r.1.length + 2) ++ r.2 ++ "\n")

/-- Each row on two lines. -/
def stack (rows : List (String × String)) : String :=
  String.join (rows.map fun r => spaces 2 ++ r.1 ++ "\n" ++ spaces 10 ++ r.2 ++ "\n")

def text (p : Page) : String :=
  let rows := p.flags.map fun f => (f.form, f.explanation)
  p.about ++ "\n\nUsage: " ++ p.usage ++ "\n"
    ++ String.join (p.tables.map fun t => "\n" ++ t.1 ++ ":\n" ++ columns t.2)
    ++ (if rows.isEmpty then "" else "\nOptions:\n" ++ if p.stacked then stack rows else columns rows)

end Page

end Addons.Command
