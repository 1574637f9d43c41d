import Addons.Command.Help
import Addons.Command.LogFilter
import Addons.Operator.Settings
import Addons.Resource.Definition

/-!
# The command line

The commands of the program, and what a call of it prints and exits with where no cluster can be
reached.
-/

namespace Addons.Command

/-- The commands that do something. -/
inductive Task where
  | run (settings : Settings)
  | definitions
  | wait (ns name : String) (seconds : Nat)
  deriving Repr, Inhabited

structure Invocation where
  task : Task
  logFilter : String
  logJson : Bool
  deriving Repr, Inhabited

/-- How a call ends that does not get as far as its task. -/
inductive Answer where
  | shown (text : String)
  | refused (m : Misuse)
  deriving Repr

namespace Invocation

def programName : String := "stowage"

def release : String := "0.1.0"

def defaultLogFilter : String := "info"

/-- Accepted before and after the name of a command. -/
def logFlags : List Flag :=
  [{ long := "log-level", use := .text, about := "Log filter used when RUST_LOG is unset"
     env? := some "STOWAGE_LOG_LEVEL", fallback := some defaultLogFilter },
    { long := "log-json", use := .switch, about := "Emit logs as JSON"
      env? := some "STOWAGE_LOG_JSON" }]

def closingFlags : List Flag := logFlags ++ [.help, .version]

def waitFlags : List Flag :=
  [{ long := "namespace", short := some 'n', use := .text, about := "Component namespace"
     fallback := some "default" },
    { long := "timeout", use := .number, about := "Seconds to wait before giving up"
      fallback := some "300" }]

/-- A command below the program itself. -/
structure Subcommand where
  name : String
  about : String
  flags : List Flag := []
  /-- Words it takes, with what they mean. -/
  words : List (String × String) := []
  stacked : Bool := false
  task : Given → Task

namespace Subcommand

def run : Subcommand :=
  { name := "run", about := "Run the controllers", flags := Settings.flags, stacked := true
    task := fun g => .run (.ofGiven g) }

def definitions : Subcommand :=
  { name := "crdgen", about := "Print the custom resource definitions as YAML"
    task := fun _ => .definitions }

def wait : Subcommand :=
  { name := "wait", about := "Wait until a manifest component reports Available", flags := waitFlags
    words := [("<NAME>", "Component name")]
    task := fun g => .wait ((g.values.lookup "namespace").getD "default") (g.words.headD "")
      (((g.values.lookup "timeout").bind number?).getD 300) }

def all : List Subcommand := [run, definitions, wait]

def grammar (c : Subcommand) : Grammar :=
  { flags := c.flags ++ closingFlags, words := c.words.map Prod.fst }

def page (c : Subcommand) : Page :=
  { about := c.about
    usage := " ".intercalate ([programName, c.name, "[OPTIONS]"] ++ c.words.map Prod.fst)
    tables := if c.words.isEmpty then [] else [("Arguments", c.words)]
    flags := c.flags ++ closingFlags
    stacked := c.stacked }

end Subcommand

def helpName : String := "help"

def helpAbout : String := "Print this message or the help of the given subcommand(s)"

def helpPage : Page :=
  { about := helpAbout
    usage := programName ++ " help [COMMAND]..."
    tables := [("Arguments", [("[COMMAND]...", "Print help for the subcommand(s)")])] }

def mainPage : Page :=
  { about := "Kubernetes add-on operator: charts, manifest bundles and issuers from one resource"
    usage := programName ++ " [OPTIONS] <COMMAND>"
    tables := [("Commands", Subcommand.all.map (fun c => (c.name, c.about)) ++ [(helpName, helpAbout)])]
    flags := closingFlags }

def mainGrammar : Grammar :=
  { flags := closingFlags, commands := Subcommand.all.map Subcommand.name ++ [helpName] }

def find? (name : String) : Option Subcommand := Subcommand.all.find? fun c => c.name = name

/-- The page that the words after `help` ask for. -/
def pageFor (words : List String) : Answer :=
  match words with
  | [] => .shown mainPage.text
  | [name] =>
    match find? name with
    | some c => .shown c.page.text
    | none => if name = helpName then .shown helpPage.text else .refused .unknownArgument
  | _ => .refused .unknownArgument

/-- A stop within a command, as the answer of that command. -/
def answerOf (page : Page) (name : String) : Stop → Answer
  | .help => .shown page.text
  | .version => .shown (name ++ " " ++ release ++ "\n")
  | .misuse m => .refused m

def answered {α : Type} (page : Page) (name : String) (r : Except Stop α) : Except Answer α :=
  r.mapError (answerOf page name)

/-- The call that an argument list makes. A flag for logging given after the command's name wins. -/
def ofArgs (args : List String) : Except Answer Invocation := do
  let above {α : Type} (r : Except Stop α) := answered mainPage programName r
  let (outer, below) ← above (mainGrammar.read {} args)
  match below with
  | none =>
    let _ ← above (mainGrammar.finish outer)
    .error (.refused .incomplete)
  | some (name, rest) =>
    match find? name with
    | none => .error (pageFor rest)
    | some c =>
      let inner ← answered c.page (programName ++ "-" ++ c.name) (c.grammar.readAll rest)
      let outer ← above (mainGrammar.finish outer)
      let filter := (inner.values.lookup "log-level").or (outer.values.lookup "log-level")
      return { task := c.task inner
               logFilter := filter.getD defaultLogFilter
               logJson := inner.has "log-json" || outer.has "log-json" }

end Invocation

/-- Why a task failed. -/
inductive Breakdown where
  | logging
  /-- There is no cluster to talk to. -/
  | client
  deriving DecidableEq, Repr

namespace Breakdown

def code : Breakdown → String
  | .logging => "stowage::operator::logging"
  | .client => "stowage::operator::client"

def message : Breakdown → String
  | .logging => "Failed to initialise logging"
  | .client => "Failed to connect to the cluster"

def advice : Breakdown → String
  | .logging =>
    "RUST_LOG and --log-level take tracing filter directives, e.g. 'info,stowage_kube=debug'"
  | .client => "check KUBECONFIG or the in-cluster service account"

end Breakdown

/-- What a call of the program comes to. -/
structure Outcome where
  exit : Nat
  output : String := ""
  breakdown : Option Breakdown := none
  misuse : Option Misuse := none
  deriving Repr, Inhabited

/-- A call without a cluster: definitions are printed, and all else fails to connect, unless its log
filter is bad already. -/
def Outcome.ofArgs (args : List String) : Outcome :=
  match Invocation.ofArgs args with
  | .error (.shown text) => { exit := 0, output := text }
  | .error (.refused m) => { exit := 2, misuse := some m }
  | .ok i =>
    match i.task with
    | .definitions => { exit := 0, output := Definition.stream }
    | _ =>
      { exit := 1, breakdown := some (if LogFilter.isValid i.logFilter then .client else .logging) }

end Addons.Command
