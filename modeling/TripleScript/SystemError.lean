/-!
# What goes wrong around statements

Stores and files fail for reasons of their own, whatever statement was at
work. `SystemError` lists those reasons, `ReadFailure` the ways in which
reading a file as text can fail, and `SetupError` what keeps a run from
beginning at all.
-/

namespace TripleScript

/-- Why a file could not be read as text. -/
inductive ReadFailure where
  /-- There is no such file. -/
  | notFound
  /-- There is a directory of that name. -/
  | isDirectory
  /-- A part of the path names a file, where a directory is needed. -/
  | notDirectory
  /-- The path or a part of it is longer than a path may be. -/
  | nameTooLong
  /-- The bytes of the file are not UTF-8. -/
  | notText
  /-- Another reason, in the words of whoever found it. -/
  | other (reason : String)
deriving DecidableEq, Inhabited, Repr

/-- The wording of the failure. -/
def ReadFailure.message : ReadFailure → String
  | notFound => "No such file or directory (os error 2)"
  | isDirectory => "Is a directory (os error 21)"
  | notDirectory => "Not a directory (os error 20)"
  | nameTooLong => "File name too long (os error 36)"
  | notText => "stream did not contain valid UTF-8"
  | other reason => reason

/-- Why a store or a setup step failed. -/
inductive SystemError where
  /-- A file could not be read. -/
  | io (failure : ReadFailure)
  /-- The store of this name takes no writes. -/
  | readOnly (store : String)
  /-- A line of a seed file is no ground triple. -/
  | seed (path : String) (line : Nat) (reason : String)
  /-- Logging could not be set up. -/
  | logging (reason : String)
deriving DecidableEq, Inhabited, Repr

/-- The message for the user. -/
def SystemError.message : SystemError → String
  | io failure => s!"I/O error: {failure.message}"
  | readOnly store => s!"store '{store}' is read-only"
  | seed path line reason => s!"{path}:{line}: {reason}"
  | logging reason => s!"logging setup failed: {reason}"

/-- Why a run could not begin. -/
inductive SetupError where
  /-- The script could not be read. -/
  | script (path : String) (failure : ReadFailure)
  /-- The store could not be made ready. -/
  | store (e : SystemError)
deriving DecidableEq, Inhabited, Repr

/-- The message for the user. -/
def SetupError.message : SetupError → String
  | script path failure => s!"failed to read script {path}: {failure.message}"
  | store e => s!"failed to prepare store: {e.message}"

end TripleScript
