import TripleScript.Proofs.Run.Log
import TripleScript.Run.Rehearsal

/-!
# A run and whoever is told about it

A run hands each message to its sink and goes on, whether the sink has taken the
message or not. The one thing a sink can do to a run is to cancel it. So two sinks
that cancel at the same moments cannot be told apart by the run, however often
either of them fails.

The moments are given by a `Schedule`, which decides from all that has been told
so far, and from the store as it was then, whether the run is cancelled now. A sink
follows the schedule if it cancels at these moments and at no others
(`Sink.Follows`); it may keep whatever state it likes and take or refuse any
message. A sink that does nothing but follow the schedule has the log for its state
(`Schedule.sink`), and a run with any other sink that follows it is, but for the
state of that sink, the run with this one: `Runner.attended_tell` is one message,
`Runner.attended_step` one statement, `Engine.unattended_run` the whole run.
-/

namespace TripleScript

variable {σ σ' : Type}

/-- **The moments at which a run is cancelled** from outside, decided by what has
been told by then, the message of the moment included. -/
abbrev Schedule := RunLog → Bool

/-- The sink that takes every message and follows a schedule. -/
def Schedule.sink (schedule : Schedule) : Sink RunLog where
  take m s log := ({ taken := true, cancels := schedule (log ++ [(m, s)]) }, log ++ [(m, s)])

namespace Sink

/-- The state of a sink that has been told what is in a log. -/
def after (sink : Sink σ) (state : σ) (log : RunLog) : σ :=
  log.foldl (fun state entry => (sink.take entry.1 entry.2 state).2) state

@[simp] theorem after_concat (sink : Sink σ) (state : σ) (log : RunLog) (m : Message)
    (s : Session) :
    sink.after state (log ++ [(m, s)]) = (sink.take m s (sink.after state log)).2 := by
  rw [after, List.foldl_append]
  rfl

/-- **A sink follows a schedule** if the run is cancelled on a message to it when,
and only when, the schedule says so. Whether it takes the message is left open. -/
def Follows (sink : Sink σ) (state : σ) (schedule : Schedule) : Prop :=
  ∀ log m s, (sink.take m s (sink.after state log)).1.cancels = schedule (log ++ [(m, s)])

end Sink

/-! ## A run without its sink -/

namespace Runner

/-- A run whose sink keeps a log, with the log in the place of the sink. -/
def State.unattended (st : State (σ × RunLog)) : State RunLog :=
  ⟨st.session, st.log, st.summary⟩

/-- The run with a logging sink is the run with the log alone, and the sink has
been told what is in the log. -/
structure Attended (sink : Sink σ) (state : σ) (st : State (σ × RunLog))
    (bare : State RunLog) : Prop where
  /-- Nothing but the sink is different. -/
  unattended : st.unattended = bare
  /-- The sink knows what was told, and nothing else. -/
  told : st.sink.1 = sink.after state st.log

variable {sink : Sink σ} {state : σ} {schedule : Schedule} {st : State (σ × RunLog)}
  {bare : State RunLog}

/-- **One message**: the sink may fail to take it, but the run is cancelled on it
as scheduled. -/
theorem attended_tell (hsink : sink.Follows state schedule) (h : Attended sink state st bare)
    (m : Message) :
    Attended sink state (st.tell sink.logged m) (bare.tell schedule.sink m) := by
  obtain ⟨rfl, htold⟩ := h
  have hcancels : (sink.take m st.session st.sink.1).1.cancels
      = schedule (st.log ++ [(m, st.session)]) := by
    rw [htold]
    exact hsink st.log m st.session
  refine ⟨?_, ?_⟩
  · show State.mk (if (sink.take m st.session st.sink.1).1.cancels then st.session.cancel
        else st.session) _ _ = _
    rw [hcancels]
    rfl
  · rw [State.log_tell, Sink.after_concat, ← htold]
    rfl

/-- The session and the totals may change with no word to the sink. -/
theorem Attended.update (h : Attended sink state st bare) (session : Session)
    (summary : RunSummary) :
    Attended sink state { st with session, summary } { bare with session, summary } := by
  obtain ⟨rfl, htold⟩ := h
  exact ⟨rfl, htold⟩

/-- **One statement**: what is counted and told of it depends on the session and on
what the run has found before. -/
theorem attended_step (e : Engine) (channel : ChannelSize) (total : Nat)
    (hsink : sink.Follows state schedule) (h : Attended sink state st bare)
    (x : ScriptStatement) :
    Attended sink state (step e sink.logged channel total st x)
      (step e schedule.sink channel total bare x) := by
  have hbare := h.unattended
  unfold step
  by_cases hstop : (st.summary.cancelled || st.session.cancelled) = true
  · rw [if_pos hstop, if_pos (by rw [← hbare]; exact hstop), ← hbare]
    exact attended_tell hsink (Attended.update ⟨rfl, h.told⟩ _ _) _
  · rw [if_neg hstop, if_neg (by rw [← hbare]; exact hstop)]
    have hstarted := attended_tell hsink h (.started x)
    dsimp only
    rw [← hstarted.unattended]
    exact attended_tell hsink (Attended.update ⟨rfl, hstarted.told⟩ _ _) _

/-- **All statements**, one after the other. -/
theorem attended_foldl (e : Engine) (channel : ChannelSize) (total : Nat)
    (hsink : sink.Follows state schedule) (h : Attended sink state st bare)
    (xs : List ScriptStatement) :
    Attended sink state (xs.foldl (step e sink.logged channel total) st)
      (xs.foldl (step e schedule.sink channel total) bare) := by
  induction xs generalizing st bare with
  | nil => exact h
  | cons x xs ih => exact ih (attended_step e channel total hsink h x)

end Runner

namespace Engine

variable (e : Engine) (script : Script) (channel : ChannelSize) (s : Session)

/-- **A run is told and goes on as scheduled**, whatever becomes of the messages. -/
theorem unattended_run {sink : Sink σ} {state : σ} {schedule : Schedule}
    (h : sink.Follows state schedule) :
    (e.run sink.logged script channel s (state, [])).unattended
      = e.run schedule.sink script channel s [] := by
  let start : Runner.State (σ × RunLog) :=
    { session := s, sink := (state, []),
      summary := { source := script.source, total := script.size } }
  have hstart : Runner.Attended sink state start start.unattended := ⟨rfl, rfl⟩
  have hopened := Runner.attended_tell h hstart (.opened script)
  have hlast := Runner.attended_foldl e channel script.size h hopened script.statements
  let last := script.statements.foldl (Runner.step e sink.logged channel script.size)
    (start.tell sink.logged (.opened script))
  let bare := script.statements.foldl (Runner.step e schedule.sink channel script.size)
    (start.unattended.tell schedule.sink (.opened script))
  have hfinished := Runner.attended_tell h hlast (.finished last.summary)
  have hsummary : last.summary = bare.summary :=
    congrArg Runner.State.summary hlast.unattended
  calc (last.tell sink.logged (.finished last.summary)).unattended
      = bare.tell schedule.sink (.finished last.summary) := hfinished.unattended
    _ = bare.tell schedule.sink (.finished bare.summary) := by rw [hsummary]

end Engine

/-- **Failing sinks do not influence a run.** Two sinks follow one schedule of
cancellations; apart from that each may fail at any message, depending on all it
was told before. The engine may make of its statements what it likes, and it may
cancel the run too, as may a fault of the store. Both sinks are told the same
messages and see the same session at each of them, and both runs return the same
summary and leave the same session and store. -/
theorem run_eq_of_schedule (e : Engine) (script : Script) (channel : ChannelSize) (s : Session)
    (schedule : Schedule) {sink : Sink σ} {sink' : Sink σ'} {state : σ} {state' : σ'}
    (h : sink.Follows state schedule) (h' : sink'.Follows state' schedule) :
    e.log sink script channel s state = e.log sink' script channel s state'
      ∧ (e.run sink script channel s state).summary
        = (e.run sink' script channel s state').summary
      ∧ (e.run sink script channel s state).session
        = (e.run sink' script channel s state').session := by
  have hrun := (e.unattended_run script channel s h).trans
    (e.unattended_run script channel s h').symm
  rw [← e.unlogged_run sink, ← e.unlogged_run sink']
  exact ⟨congrArg Runner.State.sink hrun, congrArg Runner.State.summary hrun,
    congrArg Runner.State.session hrun⟩

/-! ## Rehearsed trouble -/

namespace Rehearsal

/-- The moment at which a rehearsal is ordered to be cancelled. -/
def Orders.schedule (orders : Orders) : Schedule := fun log =>
  log.getLast?.any fun entry => orders.cancelAt = some (Phase.of entry.1, positionOf entry.1)

/-- The rehearsal sink cancels as it was ordered to, whatever it fails at and
however much room its reports have. -/
theorem follows_sink (orders : Orders) (notes : Notes) :
    (sink orders).Follows notes orders.schedule := by
  intro log m s
  rw [Orders.schedule, List.getLast?_concat]
  unfold sink
  dsimp only
  split <;> rfl

end Rehearsal

/-- A rehearsal that is cancelled when the second of its three statements has been
reported, told once to a sink that fails at the reports, and once to one that fails
when the run and its statements begin, and whose plain report has no room. -/
theorem run_eq_of_schedule_of_rehearsal :
    let script := Script.parse "r" "one\nplan:panic:boom\nthree"
    let s : Session := .begin { memory := { name := "r" } }
    let orders : Rehearsal.Orders :=
      { cancelAt := some (.recorded, 2), failAt := [.recorded, .finished] }
    let orders' : Rehearsal.Orders :=
      { cancelAt := some (.recorded, 2), failAt := [.opened, .started] }
    let notes : Rehearsal.Notes := {}
    let notes' : Rehearsal.Notes := { plain := { room := some 3 } }
    let log := Rehearsal.engine.log (Rehearsal.sink orders) script ⟨7⟩ s notes
    let log' := Rehearsal.engine.log (Rehearsal.sink orders') script ⟨7⟩ s notes'
    log.reports.map StatementReport.status
        = [.succeeded (Rehearsal.resultTable "one" "7" "1"),
          .failed ⟨.plan, "adapter panicked: boom"⟩, .notAttempted]
      ∧ log = log' := by
  intro script s orders orders' notes notes' log log'
  have hstatus : log.reports.map StatementReport.status
      = [.succeeded (Rehearsal.resultTable "one" "7" "1"),
        .failed ⟨.plan, "adapter panicked: boom"⟩, .notAttempted] := by
    decide +kernel
  obtain ⟨hlog, -, -⟩ := run_eq_of_schedule Rehearsal.engine script ⟨7⟩ s orders.schedule
    (Rehearsal.follows_sink orders notes) (Rehearsal.follows_sink orders' notes')
  exact ⟨hstatus, hlog⟩

end TripleScript
