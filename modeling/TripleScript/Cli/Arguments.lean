import TripleScript.Run.Script

/-!
# Arguments

The program is called with options and the command `run`, which has options
of its own and names a script. Options that concern every command may stand
before the command or behind it; an option behind the command counts before
one in front of it, and either counts before the environment. In each of the
two places an option may be given once.

The value of an option stands behind an equals sign or is the next argument,
which then does not begin with a hyphen. Two hyphens end the options.

`Arguments.parse` takes the arguments from left to right and stops at the
first that is wrong or asks for the version or for help.
-/

namespace TripleScript.Cli

/-- The forms of a report. -/
inductive Format where
  /-- For people. -/
  | text
  /-- One JSON object per line. -/
  | json
deriving DecidableEq, Inhabited, Repr

/-- The forms by name. -/
def Format.names : List (String × Format) :=
  [("text", text), ("json", json)]

/-- The colours of a report for people. -/
inductive Theme where
  /-- The usual ones, which are those for dark terminals. -/
  | auto
  /-- Those for light terminals. -/
  | light
  /-- Those for dark terminals. -/
  | dark
  /-- None. -/
  | plain
deriving DecidableEq, Inhabited, Repr

/-- The themes by name. -/
def Theme.names : List (String × Theme) :=
  [("auto", auto), ("light", light), ("dark", dark), ("plain", plain)]

/-- What is set in one place of the arguments. -/
structure Settings where
  /-- The configuration file. -/
  config : Option String := none
  /-- The form of the report. -/
  format : Option Format := none
  /-- The colours of the report. -/
  theme : Option Theme := none
  /-- Whether to leave out the closing line. -/
  quiet : Bool := false
  /-- What is logged. -/
  logLevel : Option String := none
  /-- How many triples are handed on at a time. -/
  channelSize : Option ChannelSize := none
  /-- The seed file. -/
  seed : Option String := none
  /-- Whether the store takes no writes. -/
  readOnly : Bool := false
  /-- The script. -/
  script : Option String := none
deriving DecidableEq, Inhabited, Repr

/-- What a call asks for. -/
inductive Call where
  /-- To run a script; what is set before the command and behind it. -/
  | run (before behind : Settings)
  /-- To show the version. -/
  | version
  /-- To show help. -/
  | help
deriving DecidableEq, Inhabited, Repr

/-- The places where options stand. -/
inductive Place where
  /-- Before the command. -/
  | before
  /-- Behind it. -/
  | behind
deriving DecidableEq, Inhabited, Repr

namespace Settings

/-- A value for something not set yet. -/
def once {α : Type} (old : Option α) (new : Option α) : Option (Option α) :=
  match old, new with
  | none, some a => some (some a)
  | _, _ => none

/-- A path: any text but the empty one. -/
def path? (value : String) : Option String :=
  if value.isEmpty then none else some value

/-- The settings with the value of an option, unless the option is unknown in
this place, was given before or does not take that value. -/
def set (place : Place) (name value : String) (s : Settings) : Option Settings :=
  match name, place with
  | "config", _ => (once s.config (path? value)).map ({ s with config := · })
  | "format", _ => (once s.format (Format.names.lookup value)).map ({ s with format := · })
  | "theme", _ => (once s.theme (Theme.names.lookup value)).map ({ s with theme := · })
  | "log-level", _ => (once s.logLevel (some value)).map ({ s with logLevel := · })
  | "channel_size", .behind =>
    (once s.channelSize (ChannelSize.parse? value)).map ({ s with channelSize := · })
  | "channel-size", .behind =>
    (once s.channelSize (ChannelSize.parse? value)).map ({ s with channelSize := · })
  | "seed", .behind => (once s.seed (path? value)).map ({ s with seed := · })
  | _, _ => none

/-- The settings with an option that takes no value; the outer answer is
nothing if there is no such option in this place, the inner one if it was
given before. -/
def mark (place : Place) (name : String) (s : Settings) : Option (Option Settings) :=
  match name, place with
  | "quiet", _ => some (if s.quiet then none else some { s with quiet := true })
  | "read-only", .behind =>
    some (if s.readOnly then none else some { s with readOnly := true })
  | _, _ => none

end Settings

namespace Arguments

/-- Whether an argument stands for itself: it does not begin with a hyphen or
is nothing but one. -/
def isPlain (arg : String) : Bool :=
  arg.toList.head? != some '-' || arg == "-"

/-- The name of an option and the value attached to it, from behind its
hyphens. -/
def splitEquals (cs : List Char) : String × Option String :=
  match cs.dropWhile (· ≠ '=') with
  | [] => (String.ofList cs, none)
  | _ :: value => (String.ofList (cs.takeWhile (· ≠ '=')), some (String.ofList value))

/-- The settings with an option, given its name and perhaps its value behind
the hyphens, and the arguments that follow. -/
def takeOption (place : Place) (s : Settings) (cs : List Char) (args : List String) :
    Option (Settings × List String) :=
  match splitEquals cs with
  | (name, some value) => (s.set place name value).map (·, args)
  | (name, none) =>
    match s.mark place name, args with
    | some marked, _ => marked.map (·, args)
    | none, [] => none
    | none, value :: rest =>
      if isPlain value then (s.set place name value).map (·, rest) else none

/-- An option leaves at most the arguments behind its name. -/
theorem length_of_takeOption {place : Place} {s t : Settings} {cs : List Char}
    {args rest : List String} (h : takeOption place s cs args = some (t, rest)) :
    rest.length ≤ args.length := by
  have kept {s : Option Settings} {args : List String}
      (h : s.map (·, args) = some (t, rest)) : rest.length ≤ args.length := by
    obtain ⟨_, _, h⟩ := Option.map_eq_some_iff.1 h
    injection h with _ h
    exact h ▸ Nat.le_refl _
  unfold takeOption at h
  split at h
  · exact kept h
  · split at h
    · exact kept h
    · contradiction
    · split at h
      · exact Nat.le_succ_of_le (kept h)
      · contradiction

/-- The arguments behind two hyphens, which are all plain. -/
def rest (before behind : Settings) : List String → Option Call
  | [] => if behind.script.isSome then some (.run before behind) else none
  | arg :: args =>
    match Settings.once behind.script (Settings.path? arg) with
    | none => none
    | some script => rest before { behind with script } args

/-- The arguments behind the command. -/
def behindCommand (before behind : Settings) : List String → Option Call
  | [] => rest before behind []
  | arg :: args =>
    if arg = "--" then rest before behind args
    else if arg = "--help" then some .help
    else
      match arg.toList with
      | '-' :: '-' :: option =>
        match _h : takeOption .behind behind option args with
        | some (behind, args) => behindCommand before behind args
        | none => none
      | '-' :: 'h' :: _ => some .help
      | _ =>
        if isPlain arg then
          match Settings.once behind.script (Settings.path? arg) with
          | some script => behindCommand before { behind with script } args
          | none => none
        else none
termination_by args => args.length
decreasing_by
  · have := length_of_takeOption _h
    simp only [List.length_cons]
    omega
  · simp

/-- The arguments before the command. -/
def beforeCommand (before : Settings) : List String → Option Call
  | [] => none
  | arg :: args =>
    if arg = "run" then behindCommand before {} args
    else if arg = "--" then none
    else if arg = "--help" then some .help
    else if arg = "--version" then some .version
    else
      match arg.toList with
      | '-' :: '-' :: option =>
        match _h : takeOption .before before option args with
        | some (before, args) => beforeCommand before args
        | none => none
      | '-' :: 'h' :: _ => some .help
      | '-' :: 'V' :: _ => some .version
      | _ => none
termination_by args => args.length
decreasing_by
  have := length_of_takeOption _h
  simp only [List.length_cons]
  omega

/-- **What a call asks for**, or nothing if the arguments are wrong. -/
def parse (args : List String) : Option Call :=
  beforeCommand {} args

end Arguments

end TripleScript.Cli
