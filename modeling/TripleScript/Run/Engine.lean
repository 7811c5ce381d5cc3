import TripleScript.Query.Compile
import TripleScript.Run.Outcome
import TripleScript.Select.Answer

/-!
# Engines

An engine takes a statement through the three stages. A run knows nothing of
what passes from one stage to the next; it only knows that a stage can
succeed, fail with a message, or break down. A breakdown is contained: it
counts as a failure of the stage, and the run goes on.

The third stage is watched. If the run is cancelled before it, it does not
begin, and if the run is cancelled while it waits, it is given up.

`Engine.carryOut` is the way of one statement through an engine, and
`Engine.standard` is the engine of this library.
-/

namespace TripleScript

/-- What came of a stage. -/
inductive Attempt (α : Type) where
  /-- It succeeded. -/
  | done (a : α)
  /-- It failed. -/
  | failed (message : String)
  /-- It broke down, perhaps with a last word. -/
  | brokeDown (detail : Option String)
deriving Inhabited

/-- What came of a stage that may be given up. -/
inductive Execution where
  /-- It came to an end. -/
  | returned (attempt : Attempt Table)
  /-- It was given up while it waited. -/
  | abandoned
deriving Inhabited

/-- The three stages, each of which may use the session. -/
structure Engine where
  /-- What the first stage passes on. -/
  Compiled : Type
  /-- What the second stage passes on. -/
  Planned : Type
  /-- Reading a statement. -/
  compile : String → Session → Attempt Compiled × Session
  /-- Making a plan. -/
  plan : Compiled → ChannelSize → Session → Attempt Planned × Session
  /-- Carrying out a plan. -/
  execute : Planned → Session → Execution × Session

/-- The result of a stage, with a breakdown as a failure. -/
def Attempt.contain {α : Type} (stage : Stage) : Attempt α → Except Failure α
  | done a => .ok a
  | failed message => .error ⟨stage, message⟩
  | brokeDown detail =>
    .error ⟨stage, "adapter panicked: " ++ detail.getD "unknown panic payload"⟩

/-- What a stage that may be given up makes of a statement. -/
def Execution.status : Execution → Status
  | returned attempt =>
    match attempt.contain .execute with
    | .ok table => .succeeded table
    | .error failure => .failed failure
  | abandoned => .failed ⟨.execute, "statement cancelled"⟩

namespace Engine

/-- **The way of a statement through an engine.** -/
def carryOut (e : Engine) (text : String) (channel : ChannelSize) (s : Session) :
    Status × Session :=
  let (compiled, s) := e.compile text s
  match compiled.contain .compile with
  | .error failure => (.failed failure, s)
  | .ok compiled =>
    let (planned, s) := e.plan compiled channel s
    match planned.contain .plan with
    | .error failure => (.failed failure, s)
    | .ok planned =>
      if s.cancelled then (Execution.abandoned.status, s)
      else
        let (execution, s) := e.execute planned s
        (execution.status, s)

/-- The ending of a plan as an execution. -/
def ofEnding : Ending → Execution
  | .finished (.ok table) => .returned (.done table)
  | .finished (.error e) => .returned (.failed e.message)
  | .abandoned => .abandoned

/-- **The engine of this library**: it compiles, plans and executes the
statements for triple stores. -/
def standard : Engine where
  Compiled := Command
  Planned := Plan
  compile text s :=
    match Command.compile text with
    | .ok c => (.done c, s)
    | .error e => (.failed e.message, s)
  plan c channel s :=
    match c.plan channel.capacity s with
    | .ok p s => (.done p, s)
    | .error e s => (.failed e.message, s)
  execute p s :=
    let (ending, s) := p.run true s
    (ofEnding ending, s)

end Engine

end TripleScript
