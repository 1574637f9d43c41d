import Addons.Command.Arguments

/-!
# Settings of the controllers

What the controllers are told on the command line.
-/

namespace Addons

/-- Durations are in seconds. -/
structure Settings where
  /-- The only namespace to watch; all of them when absent. -/
  ns : Option String := none
  /-- Between two reconciles of something healthy. -/
  requeueInterval : Nat := 300
  /-- For each request to a cluster or a source. -/
  operationTimeout : Nat := 60
  /-- For workloads to come up after a retry. -/
  awaitTimeout : Nat := 300
  deriving DecidableEq, Repr, Inhabited

namespace Settings

open Command

def defaults : Settings := {}

def secondsFlag (long about env : String) (fallback : Nat) : Flag :=
  { long, use := .number, about, env? := some env, fallback := some (toString fallback) }

def flags : List Flag :=
  [{ long := "namespace", short := some 'n', use := .text
     about := "Only watch resources in this namespace (all namespaces when unset)"
     env? := some "STOWAGE_NAMESPACE" },
    secondsFlag "requeue-interval" "Seconds between periodic re-reconciles of healthy resources"
      "STOWAGE_REQUEUE_INTERVAL" defaults.requeueInterval,
    secondsFlag "operation-timeout" "Deadline in seconds for each cluster or fetch operation"
      "STOWAGE_OPERATION_TIMEOUT" defaults.operationTimeout,
    secondsFlag "await-timeout" "Seconds to wait for workloads to become available after a retry"
      "STOWAGE_AWAIT_TIMEOUT" defaults.awaitTimeout]

/-- The settings that flags give; an empty namespace is none. -/
def ofGiven (g : Given) : Settings :=
  let seconds (name : String) (fallback : Nat) : Nat :=
    ((g.values.lookup name).bind number?).getD fallback
  { ns := (g.values.lookup "namespace").filter fun s => !s.isEmpty
    requeueInterval := seconds "requeue-interval" defaults.requeueInterval
    operationTimeout := seconds "operation-timeout" defaults.operationTimeout
    awaitTimeout := seconds "await-timeout" defaults.awaitTimeout }

/-- The settings of an argument list that holds nothing else. -/
def ofArgs (args : List String) : Except Stop Settings := do
  return ofGiven (← ({ flags := flags ++ [.help] } : Grammar).readAll args)

end Settings

end Addons
