import TripleScript.Run.Engine

/-!
# Running scripts

A run takes the statements of a script in order and tells a sink what
happens: that the run begins, that a statement starts, what came of it, and
that the run is over. A statement that fails does not stop the run. Once the
run is found cancelled before a statement, that statement and all that follow
are not attempted.

A sink can fail to take a message, and it can cancel the run when it gets
one. The run does not care for failures, and looks for cancellation only when
it comes to a statement.

`Runner.step` is one statement, and `Engine.run` the whole run.
-/

namespace TripleScript

/-- What a sink is told. -/
inductive Message where
  /-- The run of a script begins. -/
  | opened (script : Script)
  /-- A statement starts. -/
  | started (statement : ScriptStatement)
  /-- What came of a statement. -/
  | recorded (report : StatementReport)
  /-- The run is over. -/
  | finished (summary : RunSummary)
deriving DecidableEq, Inhabited, Repr

/-- How a sink takes a message. -/
structure Reception where
  /-- Whether it could take it. -/
  taken : Bool
  /-- Whether it cancels the run. -/
  cancels : Bool := false
deriving DecidableEq, Inhabited, Repr

/-- Whoever is told about a run. -/
structure Sink (σ : Type) where
  /-- What it makes of a message, seeing the session. -/
  take : Message → Session → σ → Reception × σ

namespace Runner

/-- A run between two statements. -/
structure State (σ : Type) where
  /-- The session of the run. -/
  session : Session
  /-- The state of the sink. -/
  sink : σ
  /-- The summary so far. -/
  summary : RunSummary

/-- The run after a message to the sink. -/
def State.tell {σ : Type} (sink : Sink σ) (m : Message) (st : State σ) : State σ :=
  let (reception, state) := sink.take m st.session st.sink
  { st with
    session := if reception.cancels then st.session.cancel else st.session
    sink := state }

/-- The run after it has counted and told what came of a statement. -/
def State.record {σ : Type} (sink : Sink σ) (total : Nat) (statement : ScriptStatement)
    (status : Status) (st : State σ) : State σ :=
  State.tell sink (.recorded ⟨statement.position, total, statement.text, status⟩)
    { st with summary := st.summary.count status }

/-- **One statement of a run.** -/
def step {σ : Type} (e : Engine) (sink : Sink σ) (channel : ChannelSize) (total : Nat)
    (st : State σ) (statement : ScriptStatement) : State σ :=
  if st.summary.cancelled || st.session.cancelled then
    st.record sink total statement .notAttempted
  else
    let st := st.tell sink (.started statement)
    let (status, session) := e.carryOut statement.text channel st.session
    State.record sink total statement status { st with session }

end Runner

/-- **A run**: every statement of a script in order, on one session. -/
def Engine.run {σ : Type} (e : Engine) (sink : Sink σ) (script : Script)
    (channel : ChannelSize) (s : Session) (state : σ) : Runner.State σ :=
  let total := script.size
  let st : Runner.State σ :=
    { session := s, sink := state, summary := { source := script.source, total } }
  let st := st.tell sink (.opened script)
  let st := script.statements.foldl (Runner.step e sink channel total) st
  st.tell sink (.finished st.summary)

end TripleScript
