import Addons.Command.Invocation

/-! The program: prints what a call comes to, and exits with its code. -/

open Addons.Command

/-- What standard error says of a call. -/
def Addons.Command.Outcome.complaints (o : Outcome) : List String :=
  match o.breakdown, o.misuse with
  | some b, _ => [b.code, "", b.message, "", "help: " ++ b.advice]
  | none, some m => ["error: " ++ m.message, "", "For more information, try '--help'."]
  | none, none => []

def main (args : List String) : IO UInt32 := do
  let outcome := Outcome.ofArgs args
  IO.print outcome.output
  for line in outcome.complaints do
    IO.eprintln line
  return UInt32.ofNat outcome.exit
