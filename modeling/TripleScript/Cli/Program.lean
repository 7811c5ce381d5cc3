import TripleScript.Cli.Config
import TripleScript.Cli.Console
import TripleScript.Cli.LogFilter

/-!
# The program

A call goes through the same steps every time, and the first that fails ends
it: the arguments are taken apart, the configuration is loaded, the log
filter is checked, the script is read, the store is made ready. What is left
then is a `Job`, and running it always succeeds, whatever comes of the
statements.

What a call depends on is in its `Surroundings`, apart from files, which are
read only when a step needs them. So the steps go through any monad that has
a way to read files: `Surroundings.prepare` gives the job or the reason why
there is none, and `Job.messages` and `Job.output` are the run.
-/

namespace TripleScript.Cli

/-- What a call depends on, apart from files. -/
structure Surroundings where
  /-- The arguments. -/
  arguments : List String
  /-- The configuration file named in the environment. -/
  configVariable : Option String := none
  /-- The log filter in the environment. -/
  logVariable : Option String := none
  /-- The usual configuration file. -/
  usualConfig : Option String := none
  /-- Whether the report goes to a terminal. -/
  terminal : Bool := false

/-- A way to read a file as text. -/
abbrev Reading (m : Type → Type) := String → m (Except ReadFailure String)

/-- Why a call ends without a run. -/
inductive Refusal where
  /-- The arguments are wrong. -/
  | usage
  /-- The configuration cannot be used. -/
  | config (e : ConfigError)
  /-- The log filter makes no sense. -/
  | logging (e : SystemError)
  /-- The run cannot begin. -/
  | setup (e : SetupError)
deriving DecidableEq, Inhabited, Repr

namespace Refusal

/-- The exit status: two for mistakes in the call, one for everything else. -/
def code : Refusal → Nat
  | usage => 2
  | config (.invalidValue ..) => 2
  | config _ => 1
  | logging _ => 2
  | setup _ => 1

/-- The message for the user. -/
def message : Refusal → String
  | usage => "usage: triq [OPTIONS] run [OPTIONS] FILE"
  | config e => s!"error: {e.message}"
  | logging e => s!"error: {e.message}"
  | setup e => s!"error: {e.message}"

end Refusal

/-- A run that is ready to begin. -/
structure Job where
  /-- The script. -/
  script : Script
  /-- The store. -/
  store : MemoryStore
  /-- How many triples are handed on at a time. -/
  channel : ChannelSize
  /-- The form of the report. -/
  format : Format
  /-- The colours of the report. -/
  palette : Option Palette
  /-- Whether to leave out the closing line. -/
  quiet : Bool

/-- What a call amounts to. -/
inductive Outcome where
  /-- A run. -/
  | job (job : Job)
  /-- The version. -/
  | version
  /-- Help. -/
  | help

/-- The version of the program. -/
def versionLine : String := "triq 0.1.0\n"

/-- What is said about calling the program. -/
def helpText : String :=
  "Run scripts of triple pattern statements against a shared store\n\n"
    ++ "Usage: triq [OPTIONS] run [OPTIONS] FILE\n"

/-- The log filter when none is given. -/
def usualLogFilter : String := "warn"

namespace Surroundings

/-- The configuration file named by the user. A place of the arguments that
names none falls back on the environment, which has to name a path then. -/
def namedConfig (s : Surroundings) (before behind : Settings) :
    Except Refusal (Option String) :=
  match behind.config, before.config, s.configVariable with
  | some path, some _, _ => .ok (some path)
  | _, _, some "" => .error .usage
  | some path, none, _ => .ok (some path)
  | none, some path, _ => .ok (some path)
  | none, none, path => .ok path

/-- The log filter must make sense. -/
def checkLogFilter (filter : String) : Except Refusal Unit :=
  if LogFilter.isValid filter then .ok ()
  else .error (.logging (.logging "invalid log level"))

end Surroundings

/-- The script in the content of a file. -/
def Script.ofContent (path : String) : Except ReadFailure String → Except Refusal Script
  | .error failure => .error (.setup (.script path failure))
  | .ok text => .ok (Script.parse path text)

/-- The store that a run begins with when there is no seed file. -/
def emptyStore : MemoryStore := { name := "default" }

/-- A store with the triples in the content of a seed file. -/
def seededStore (path : String) (content : Except ReadFailure String) :
    Except Refusal MemoryStore :=
  match emptyStore.seed path content with
  | .error e => .error (.setup (.store e))
  | .ok (_, store) => .ok store

namespace Surroundings

variable {m : Type → Type} [Monad m]

/-- The defaults for a call, from the file that the user named or else from
the usual one. -/
def loadDefaults (s : Surroundings) (read : Reading m) (named : Option String) :
    ExceptT Refusal m Defaults := do
  match named, s.usualConfig with
  | some path, _ => (Defaults.ofNamed path (← read path)).mapError Refusal.config
  | none, some path => (Defaults.ofUsual path (← read path)).mapError Refusal.config
  | none, none => return {}

/-- The store of a run. -/
def openStore (read : Reading m) (behind : Settings) : ExceptT Refusal m MemoryStore := do
  let store ← match behind.seed with
    | none => pure emptyStore
    | some path => seededStore path (← read path)
  return { store with readOnly := behind.readOnly }

/-- The run that the arguments ask for. -/
def prepareRun (s : Surroundings) (read : Reading m) (before behind : Settings) :
    ExceptT Refusal m Job := do
  let defaults ← s.loadDefaults read (← s.namedConfig before behind)
  checkLogFilter <| (behind.logLevel <|> before.logLevel <|> s.logVariable
    <|> defaults.logLevel).getD usualLogFilter
  let path := behind.script.getD ""
  let script ← Script.ofContent path (← read path)
  let store ← openStore read behind
  let theme := (behind.theme <|> before.theme <|> defaults.theme).getD .auto
  return {
    script
    store
    channel := (behind.channelSize <|> defaults.channelSize).getD ⟨0⟩
    format := (behind.format <|> before.format <|> defaults.format).getD .text
    palette := if s.terminal then theme.palette? else none
    quiet := before.quiet || behind.quiet }

/-- **What a call amounts to**, or why it is refused. -/
def prepare (s : Surroundings) (read : Reading m) : ExceptT Refusal m Outcome := do
  match Arguments.parse s.arguments with
  | none => throw .usage
  | some .version => return .version
  | some .help => return .help
  | some (.run before behind) => return .job (← s.prepareRun read before behind)

end Surroundings

/-- The sink that keeps the messages. -/
def recorder : Sink (Array Message) where
  take m _ messages := ({ taken := true }, messages.push m)

namespace Job

/-- **The messages of the run.** -/
def messages (job : Job) : List Message :=
  (Engine.standard.run recorder job.script job.channel (.begin { memory := job.store })
    #[]).sink.toList

/-- A message with the time that the run took. -/
def timed (elapsed : Elapsed) : Message → Message
  | .finished summary => .finished { summary with elapsed }
  | m => m

/-- The report on some messages. -/
def output (job : Job) (messages : List Message) : String :=
  let pieces := match job.format with
    | .text => Plain.pieces (decoration job.palette)
    | .json => JsonLines.pieces
  String.join (messages.flatMap pieces)

/-- The closing line for some messages: for people who did not ask for
quiet. -/
def closing? (job : Job) (messages : List Message) : Option (String × Elapsed) :=
  match job.format, job.quiet, messages.getLast? with
  | .text, false, some (.finished summary) =>
    some (closingLine job.palette summary, summary.elapsed)
  | _, _, _ => none

end Job

end TripleScript.Cli
