import TripleScript.Cli.Arguments
import TripleScript.Cli.Toml.Document
import TripleScript.Statement.Token
import TripleScript.SystemError

/-!
# Configuration

A configuration file holds defaults for running scripts, in a table `run`
with four keys: `channel_size`, `format`, `theme` and `log_level`. A file
named by the user has to be there; the usual file may be missing.

Reading the file goes in two steps. A file that is no document with such a
table is malformed. A document whose values are of the right type may still
have values that make no sense, and the first of these is reported.
-/

namespace TripleScript.Cli

/-- The table `run` as the file has it. -/
structure RawDefaults where
  /-- The number of triples handed on at a time. -/
  channelSize : Option Int := none
  /-- The form of the report. -/
  format : Option String := none
  /-- The colours of the report. -/
  theme : Option String := none
  /-- What is logged. -/
  logLevel : Option String := none
deriving DecidableEq, Inhabited, Repr

namespace RawDefaults

/-- The table with one more key, unless it has the key or does not know it, or
the value is of another type. -/
def set (raw : RawDefaults) (key : String) (value : Toml) : Option RawDefaults :=
  match key, value with
  | "channel_size", .integer i =>
    (Settings.once raw.channelSize (some i)).map ({ raw with channelSize := · })
  | "format", .text s => (Settings.once raw.format (some s)).map ({ raw with format := · })
  | "theme", .text s => (Settings.once raw.theme (some s)).map ({ raw with theme := · })
  | "log_level", .text s =>
    (Settings.once raw.logLevel (some s)).map ({ raw with logLevel := · })
  | _, _ => none

/-- The table that a value stands for: an inline table, or an array with the
four values in order. -/
def ofValue : Toml → Option RawDefaults
  | .table pairs =>
    pairs.foldlM (fun raw (key, value) =>
      match key with
      | [key] => raw.set key value
      | _ => none) {}
  | .list (.integer i :: .text format :: .text theme :: .text logLevel :: _) =>
    some ⟨some i, some format, some theme, some logLevel⟩
  | _ => none

end RawDefaults

/-- How the table `run` has been given so far. -/
inductive Given where
  /-- Not at all. -/
  | absent
  /-- By dotted keys; more of them may follow. -/
  | dotted
  /-- By a header; what follows belongs to it. -/
  | header
  /-- By a value. -/
  | whole
deriving DecidableEq, Inhabited, Repr

/-- The table with one more entry of the document. -/
def RawDefaults.add : Given × RawDefaults → Toml.Entry → Option (Given × RawDefaults)
  | (.absent, raw), .header ["run"] => some (.header, raw)
  | (.absent, _), .pair ["run"] value => (ofValue value).map (.whole, ·)
  | (.absent, raw), .pair ["run", key] value => (raw.set key value).map (.dotted, ·)
  | (.dotted, raw), .pair ["run", key] value => (raw.set key value).map (.dotted, ·)
  | (.header, raw), .pair [key] value => (raw.set key value).map (.header, ·)
  | _, _ => none

/-- The table `run` of a document. -/
def RawDefaults.parse? (document : String) : Option RawDefaults := do
  let entries ← Toml.entries? document
  let (_, raw) ← entries.foldlM add (.absent, {})
  return raw

/-- Defaults for running scripts. -/
structure Defaults where
  /-- How many triples are handed on at a time. -/
  channelSize : Option ChannelSize := none
  /-- The form of the report. -/
  format : Option Format := none
  /-- The colours of the report. -/
  theme : Option Theme := none
  /-- What is logged. -/
  logLevel : Option String := none
deriving DecidableEq, Inhabited, Repr

/-- Why a configuration could not be used. -/
inductive ConfigError where
  /-- There is no such file. -/
  | missing (path : String)
  /-- The file could not be read. -/
  | unreadable (path : String) (failure : ReadFailure)
  /-- It is no configuration. -/
  | malformed (path : String)
  /-- A value makes no sense. -/
  | invalidValue (key value : String)
deriving DecidableEq, Inhabited, Repr

/-- The message for the user. -/
def ConfigError.message : ConfigError → String
  | missing path => s!"CLI config {path} does not exist"
  | unreadable path failure => s!"failed to read CLI config {path}: {failure.message}"
  | malformed path => s!"failed to parse CLI config {path}"
  | invalidValue key value => s!"config value {key} = '{value}' is invalid"

/-- The value of a name in either case. -/
def lookupName {α : Type} (names : List (String × α)) (name : String) : Option α :=
  (names.find? fun entry => Lexeme.sameLetters entry.1 name).map (·.2)

/-- A value that has to make sense, if it is there. -/
def checked {α β : Type} (key : String) (shown : α → String) (check : α → Option β) :
    Option α → Except ConfigError (Option β)
  | none => .ok none
  | some a =>
    match check a with
    | some b => .ok (some b)
    | none => .error (.invalidValue key (shown a))

/-- A channel size in range. -/
def channelSize? (i : Int) : Option ChannelSize :=
  if 0 ≤ i ∧ i ≤ maxCapacity then some ⟨i.toNat⟩ else none

/-- **The defaults that a table stands for**; the form is checked first, then
the colours, then the channel size. -/
def RawDefaults.check (raw : RawDefaults) : Except ConfigError Defaults := do
  let format ← checked "run.format" id (lookupName Format.names) raw.format
  let theme ← checked "run.theme" id (lookupName Theme.names) raw.theme
  let channelSize ← checked "run.channel_size" toString channelSize? raw.channelSize
  return { channelSize, format, theme, logLevel := raw.logLevel }

/-- The defaults in the content of a file. -/
def Defaults.ofContent (path : String) (content : Except ReadFailure String) :
    Except ConfigError Defaults :=
  match content with
  | .error failure => .error (.unreadable path failure)
  | .ok document =>
    match RawDefaults.parse? document with
    | none => .error (.malformed path)
    | some raw => raw.check

/-- Whether there is nothing at the path that was read. -/
def isMissing : Except ReadFailure String → Bool
  | .error .notFound => true
  | .error .notDirectory => true
  | .error .nameTooLong => true
  | _ => false

/-- The defaults in a file that the user named, which has to be there. -/
def Defaults.ofNamed (path : String) (content : Except ReadFailure String) :
    Except ConfigError Defaults :=
  if isMissing content then .error (.missing path) else ofContent path content

/-- The defaults in the usual file, which may be missing. -/
def Defaults.ofUsual (path : String) (content : Except ReadFailure String) :
    Except ConfigError Defaults :=
  if isMissing content then .ok {} else ofContent path content

end TripleScript.Cli
