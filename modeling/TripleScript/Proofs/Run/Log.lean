import TripleScript.Run.Runner

/-!
# What a run tells

A sink may do with its messages whatever it likes, so what a run tells is not
a part of its outcome. To speak about it, any sink can be made to keep a log
besides doing what it does (`Sink.logged`): each message it is told, with the
session it sees at that moment. Keeping the log changes nothing else
(`Engine.unlogged_run`), so the log of a run, `Engine.log`, is what the sink
itself is told in that run.
-/

namespace TripleScript

variable {σ : Type}

/-- Messages in the order in which they were told, each with the session the
sink saw. -/
abbrev RunLog := List (Message × Session)

/-- The report that a message brings, if it brings one. -/
def Message.report? : Message → Option StatementReport
  | recorded r => some r
  | _ => none

/-- The reports of a log. -/
def RunLog.reports (log : RunLog) : List StatementReport :=
  log.filterMap fun entry => entry.1.report?

@[simp] theorem RunLog.reports_append (log log' : RunLog) :
    RunLog.reports (log ++ log') = RunLog.reports log ++ RunLog.reports log' :=
  List.filterMap_append

@[simp] theorem RunLog.reports_singleton (m : Message) (s : Session) :
    RunLog.reports [(m, s)] = m.report?.toList := by
  cases m <;> rfl

/-- **The sink that does as another does and keeps a log.** -/
def Sink.logged (sink : Sink σ) : Sink (σ × RunLog) where
  take m s state :=
    let (reception, inner) := sink.take m s state.1
    (reception, inner, state.2 ++ [(m, s)])

namespace Runner

namespace State

/-- A run whose sink keeps a log, without the log. -/
def unlogged (st : State (σ × RunLog)) : State σ :=
  ⟨st.session, st.sink.1, st.summary⟩

/-- The log kept so far. -/
def log (st : State (σ × RunLog)) : RunLog := st.sink.2

variable (sink : Sink σ) (st : State (σ × RunLog))

/-- A message goes to the sink as if there were no log. -/
@[simp] theorem unlogged_tell (m : Message) :
    (st.tell sink.logged m).unlogged = st.unlogged.tell sink m := rfl

theorem summary_unlogged : st.unlogged.summary = st.summary := rfl

@[simp] theorem log_tell (m : Message) :
    (st.tell sink.logged m).log = st.log ++ [(m, st.session)] := rfl

@[simp] theorem log_record (total : Nat) (statement : ScriptStatement) (status : Status) :
    (st.record sink.logged total statement status).log
      = st.log ++ [(.recorded ⟨statement.position, total, statement.text, status⟩,
        st.session)] := rfl

end State

/-- A message does not undo a cancellation. -/
theorem State.cancelled_tell {sink : Sink σ} {m : Message} {st : State σ}
    (h : st.session.cancelled = true) : (st.tell sink m).session.cancelled = true := by
  unfold State.tell
  dsimp only
  split
  case isTrue => rfl
  case isFalse => exact h

/-- One statement is carried out as if there were no log. -/
theorem unlogged_step (e : Engine) (sink : Sink σ) (channel : ChannelSize) (total : Nat)
    (st : State (σ × RunLog)) (statement : ScriptStatement) :
    (step e sink.logged channel total st statement).unlogged
      = step e sink channel total st.unlogged statement := by
  show _ = if st.summary.cancelled || st.session.cancelled then _ else _
  unfold step
  split <;> rfl

end Runner

namespace Engine

variable (e : Engine) (sink : Sink σ) (script : Script) (channel : ChannelSize)
  (s : Session) (state : σ)

/-- **Keeping a log does not change a run.** -/
theorem unlogged_run :
    (e.run sink.logged script channel s (state, [])).unlogged
      = e.run sink script channel s state := by
  have hfold : ∀ st : Runner.State (σ × RunLog),
      script.statements.foldl (Runner.step e sink channel script.size) st.unlogged
        = (script.statements.foldl
            (Runner.step e sink.logged channel script.size) st).unlogged := fun st =>
    List.foldl_hom Runner.State.unlogged fun st statement =>
      (Runner.unlogged_step e sink channel script.size st statement).symm
  unfold run
  dsimp only
  rw [Runner.State.unlogged_tell, ← Runner.State.summary_unlogged, ← hfold]
  rfl

/-- What a run tells its sink. -/
def log : RunLog := (e.run sink.logged script channel s (state, [])).log

end Engine

end TripleScript
