import TripleScript.Cli.Program

/-!
# Calling the program

The outermost layer: it gathers what a call depends on, reads files, lets
`Surroundings.prepare` and the job do the work, and writes what comes of it.
-/

namespace TripleScript.Cli

/-- The number of an error of the system, which may have been negated. -/
def errorNumber (code : UInt32) : Nat :=
  min code.toNat (0 - code).toNat

/-- The failure to read with the number of an error. -/
def failureOfNumber (number : Nat) (reason : String) : ReadFailure :=
  match number with
  | 2 => .notFound
  | 20 => .notDirectory
  | 21 => .isDirectory
  | 36 => .nameTooLong
  | _ => .other s!"{reason} (os error {number})"

/-- The failure to read that an error of the system stands for. -/
def readFailure : IO.Error → ReadFailure
  | .noFileOrDirectory _ code reason => failureOfNumber (errorNumber code) reason
  | .inappropriateType _ code reason => failureOfNumber (errorNumber code) reason
  | .invalidArgument _ code reason => failureOfNumber (errorNumber code) reason
  | .permissionDenied _ code reason => failureOfNumber (errorNumber code) reason
  | .otherError code reason => failureOfNumber (errorNumber code) reason
  | e => .other (toString e)

/-- The text of a file. -/
def readFile (path : String) : IO (Except ReadFailure String) := do
  try
    match String.fromUTF8? (← IO.FS.readBinFile path) with
    | some text => return .ok text
    | none => return .error .notText
  catch e => return .error (readFailure e)

/-- The directory of the user's configuration files, if there is any. -/
def configDirectory? : IO (Option String) := do
  match ← IO.getEnv "XDG_CONFIG_HOME" with
  | some directory => if directory.startsWith "/" then return some directory
  | none => pure ()
  return (← IO.getEnv "HOME").map (· ++ "/.config")

/-- What a call with some arguments depends on. -/
def gather (arguments : List String) : IO Surroundings := do
  return {
    arguments
    configVariable := ← IO.getEnv "TRIQ_CONFIG"
    logVariable := ← IO.getEnv "TRIQ_LOG"
    usualConfig := (← configDirectory?).map (· ++ "/triq/cli.toml")
    terminal := ← (← IO.getStdout).isTty }

/-- The time that has passed since a moment. -/
def elapsedSince (start : Nat) : IO Elapsed := do
  return Elapsed.normal ⟨0, (← IO.monoNanosNow) - start⟩

/-- Runs a job and writes its report. -/
def perform (job : Job) : IO Unit := do
  let start ← IO.monoNanosNow
  let messages ← IO.lazyPure fun _ => job.messages
  let elapsed ← elapsedSince start
  let messages := messages.map (Job.timed elapsed)
  (← IO.getStdout).putStr (job.output messages)
  (← IO.getStdout).flush
  match job.closing? messages with
  | some (line, elapsed) => IO.eprintln s!"{line} in {shownElapsed elapsed}"
  | none => return

end TripleScript.Cli

open TripleScript.Cli in
/-- The program. -/
def main (arguments : List String) : IO UInt32 := do
  match ← (← gather arguments).prepare readFile with
  | .error refusal =>
    IO.eprintln refusal.message
    return UInt32.ofNat refusal.code
  | .ok (.job job) => perform job
  | .ok .version => IO.print versionLine
  | .ok .help => IO.print helpText
  return 0
