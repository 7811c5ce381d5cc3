import TripleScript.Run.Script
import TripleScript.Text.Shortest
import TripleScript.Table

/-!
# Outcomes

A statement goes through three stages and succeeds with a table or fails at
one of the stages; a statement that the run did not get to is not attempted.
Each statement is reported with its outcome, and the run ends with a summary
that counts them.
-/

namespace TripleScript

/-- The stages of a statement. -/
inductive Stage where
  /-- Reading it. -/
  | compile
  /-- Making a plan for it. -/
  | plan
  /-- Carrying the plan out. -/
  | execute
deriving DecidableEq, Inhabited, Repr

/-- The stage as reports name it. -/
def Stage.name : Stage → String
  | compile => "compile"
  | plan => "plan"
  | execute => "execute"

/-- Why a statement failed. -/
structure Failure where
  /-- The stage at which it failed. -/
  stage : Stage
  /-- The reason. -/
  message : String
deriving DecidableEq, Inhabited, Repr

/-- The failure in one line. -/
def Failure.text (f : Failure) : String :=
  s!"{f.stage.name} failed: {f.message}"

/-- What came of a statement. -/
inductive Status where
  /-- It succeeded with this table. -/
  | succeeded (table : Table)
  /-- It failed. -/
  | failed (failure : Failure)
  /-- The run was cancelled before it. -/
  | notAttempted
deriving DecidableEq, Inhabited, Repr

/-- The report on a statement. -/
structure StatementReport where
  /-- Its place among the statements, from one. -/
  position : Nat
  /-- How many statements there are. -/
  total : Nat
  /-- Its text. -/
  text : String
  /-- What came of it. -/
  status : Status
deriving DecidableEq, Inhabited, Repr

/-- How long a run took. -/
structure Elapsed where
  /-- Whole seconds. -/
  seconds : Nat := 0
  /-- And nanoseconds. -/
  nanoseconds : Nat := 0
deriving DecidableEq, Inhabited, Repr

namespace Elapsed

/-- The time with fewer nanoseconds than a second has. -/
def normal (e : Elapsed) : Elapsed :=
  ⟨e.seconds + e.nanoseconds / 1000000000, e.nanoseconds % 1000000000⟩

/-- The time in milliseconds, as a double. -/
def milliseconds (e : Elapsed) : Float :=
  let e := e.normal
  (e.seconds.toUInt64.toFloat + e.nanoseconds.toUInt64.toFloat / 1000000000.0) * 1000.0

end Elapsed

/-- The summary of a run. -/
structure RunSummary where
  /-- Where the statements come from. -/
  source : String
  /-- How many there are. -/
  total : Nat
  /-- How many succeeded. -/
  succeeded : Nat := 0
  /-- How many failed. -/
  failed : Nat := 0
  /-- How many were not attempted. -/
  notAttempted : Nat := 0
  /-- Whether the run was found cancelled before a statement. -/
  cancelled : Bool := false
  /-- How long the run took. -/
  elapsed : Elapsed := {}
deriving DecidableEq, Inhabited, Repr

/-- The summary with one more status counted. -/
def RunSummary.count (r : RunSummary) : Status → RunSummary
  | .succeeded _ => { r with succeeded := r.succeeded + 1 }
  | .failed _ => { r with failed := r.failed + 1 }
  | .notAttempted => { r with notAttempted := r.notAttempted + 1, cancelled := true }

end TripleScript
