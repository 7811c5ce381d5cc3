import Mathlib.Data.List.Forall2
import TripleScript.Proofs.Run.Log

/-!
# The messages of a run and its totals

Whatever an engine and a sink do, a run tells its messages in one order: that
it begins, for each statement in turn either that it starts and what came of
it or only that it was not attempted, and at the end the summary. Which of the
two it is for a statement is settled when the run comes to it: the statement
is left out if the session is cancelled at that moment. `StatementTrace` says
this of one statement. From outside a run can be cancelled at any moment too,
but it looks only when it comes to a statement, after it has told the message
before; a sink that cancels on that message stands for whoever does.

The summary counts the reports (`RunSummary.CountsOf`). It also remembers
that the run was found cancelled, and by then the session is
(`Runner.State.Tallied`), so that once a statement is not attempted, none
behind it is. `Runner.traced_step` is one statement, `Runner.traced_foldl` all
of them, and `run_traced_and_counted` the whole run.
-/

namespace TripleScript

/-! ## Counting statuses -/

/-- Whether a statement succeeded. -/
def Status.isSucceeded : Status → Bool
  | succeeded _ => true
  | _ => false

/-- Whether a statement failed. -/
def Status.isFailed : Status → Bool
  | failed _ => true
  | _ => false

/-- **The statuses that a summary counts.** -/
structure RunSummary.CountsOf (r : RunSummary) (statuses : List Status) : Prop where
  /-- Each counter counts the statuses of its kind. -/
  succeeded : r.succeeded = statuses.countP Status.isSucceeded
  failed : r.failed = statuses.countP Status.isFailed
  notAttempted : r.notAttempted = statuses.count .notAttempted
  /-- The run was found cancelled if it left out a statement, and only then. -/
  cancelled : r.cancelled = true ↔ 0 < r.notAttempted

namespace RunSummary

variable {r : RunSummary} {statuses : List Status}

/-- Counting leaves the number of statements. -/
@[simp] theorem total_count (r : RunSummary) (status : Status) :
    (r.count status).total = r.total := by
  cases status <;> rfl

/-- One status more is counted. -/
theorem CountsOf.count (h : r.CountsOf statuses) (status : Status) :
    (r.count status).CountsOf (statuses ++ [status]) := by
  obtain ⟨hsucceeded, hfailed, hnot, hcancelled⟩ := h
  cases status <;>
    constructor <;>
    simp [RunSummary.count, Status.isSucceeded, Status.isFailed, hsucceeded, hfailed, hnot,
      hcancelled]

/-- **Every status is counted once.** -/
theorem CountsOf.add_eq_length (h : r.CountsOf statuses) :
    r.succeeded + r.failed + r.notAttempted = statuses.length := by
  rw [h.succeeded, h.failed, h.notAttempted]
  clear h
  induction statuses with
  | nil => rfl
  | cons status statuses ih =>
    rw [List.length_cons, ← ih]
    cases status <;>
      simp [Status.isSucceeded, Status.isFailed, List.countP_cons] <;> omega

/-- The run was found cancelled if one of the statuses says so. -/
theorem CountsOf.cancelled_iff_mem (h : r.CountsOf statuses) :
    r.cancelled = true ↔ .notAttempted ∈ statuses := by
  rw [h.cancelled, h.notAttempted, List.count_pos_iff]

end RunSummary

/-! ## Traces -/

/-- The statuses that a log reports. -/
def RunLog.statuses (log : RunLog) : List Status :=
  (RunLog.reports log).map StatementReport.status

/-- **What is told about one statement** out of `total`: if the run was not
cancelled when it came to the statement, that it starts and what came of it,
and otherwise only that it was not attempted. -/
inductive StatementTrace (total : ℕ) (x : ScriptStatement) : RunLog → Prop where
  /-- The run went on to the statement. -/
  | attempted {seen seen' : Session} {status : Status} (going : seen.cancelled = false)
    (attempted : status ≠ .notAttempted) :
    StatementTrace total x [(.started x, seen),
      (.recorded ⟨x.position, total, x.text, status⟩, seen')]
  /-- The run had been cancelled by then. -/
  | skipped {seen : Session} (cancelled : seen.cancelled = true) :
    StatementTrace total x [(.recorded ⟨x.position, total, x.text, .notAttempted⟩, seen)]

/-- Once a statement is not attempted, none behind it is. -/
def AttemptedFirst (statuses : List Status) : Prop :=
  statuses.Pairwise fun status later => status = .notAttempted → later = .notAttempted

/-- A statement is reported once. -/
theorem StatementTrace.exists_statuses {total : ℕ} {x : ScriptStatement} {part : RunLog}
    (h : StatementTrace total x part) : ∃ status, RunLog.statuses part = [status] := by
  cases h with
  | attempted => exact ⟨_, rfl⟩
  | skipped => exact ⟨_, rfl⟩

@[simp] theorem RunLog.statuses_append (log log' : RunLog) :
    RunLog.statuses (log ++ log') = RunLog.statuses log ++ RunLog.statuses log' := by
  rw [statuses, reports_append, List.map_append]
  rfl

/-- So are all statements. -/
theorem length_statuses_flatten {total : ℕ} {xs : List ScriptStatement} {parts : List RunLog}
    (h : List.Forall₂ (StatementTrace total) xs parts) :
    (RunLog.statuses parts.flatten).length = xs.length := by
  induction h with
  | nil => rfl
  | cons hpart _ ih =>
    obtain ⟨status, hstatus⟩ := hpart.exists_statuses
    rw [List.flatten_cons, RunLog.statuses_append, hstatus, List.singleton_append,
      List.length_cons, List.length_cons, ih]

/-- No stage leaves a statement unattempted. -/
theorem Engine.carryOut_ne_notAttempted (e : Engine) (text : String) (channel : ChannelSize)
    (s : Session) : (e.carryOut text channel s).1 ≠ .notAttempted := by
  have hexecution : ∀ execution : Execution, execution.status ≠ .notAttempted := by
    intro execution
    unfold Execution.status
    split
    · split <;> exact nofun
    · exact nofun
  unfold carryOut
  dsimp only
  split
  · exact nofun
  · split
    · exact nofun
    · split
      · exact hexecution .abandoned
      · exact hexecution _

/-! ## One statement after the other -/

namespace Runner

variable {σ : Type} {sink : Sink σ} {st : State (σ × RunLog)}

/-- **The totals of a run are right so far**: the summary counts the statuses
that were reported, and it has not noticed a cancellation before there was
one. -/
structure State.Tallied (st : State (σ × RunLog)) : Prop where
  /-- The summary counts what was reported. -/
  counts : st.summary.CountsOf (RunLog.statuses st.log)
  /-- What it has noticed is still so. -/
  cancelled : st.summary.cancelled = true → st.session.cancelled = true
  /-- The statements that were attempted came first. -/
  attemptedFirst : AttemptedFirst (RunLog.statuses st.log)

/-- A message that brings no report leaves them right. -/
theorem State.Tallied.tell (h : st.Tallied) {m : Message} (hm : m.report? = none) :
    (st.tell sink.logged m).Tallied := by
  have hstatuses : RunLog.statuses (st.tell sink.logged m).log = RunLog.statuses st.log := by
    rw [State.log_tell, RunLog.statuses_append, RunLog.statuses, RunLog.statuses,
      RunLog.reports_singleton, hm]
    exact List.append_nil _
  exact ⟨hstatuses ▸ h.counts, fun hcancelled => State.cancelled_tell (h.cancelled hcancelled),
    hstatuses ▸ h.attemptedFirst⟩

/-- **So does a report**, if it says that its statement was not attempted only
when the session is cancelled, and whenever the run was found cancelled
before. -/
theorem State.Tallied.record {s : Session} (h : st.Tallied) (total : ℕ)
    (statement : ScriptStatement) {status : Status}
    (hlate : st.summary.cancelled = true → status = .notAttempted)
    (hs : status = .notAttempted → s.cancelled = true) :
    (State.record sink.logged total statement status { st with session := s }).Tallied := by
  have hstatuses : RunLog.statuses
      (State.record sink.logged total statement status { st with session := s }).log
        = RunLog.statuses st.log ++ [status] := by
    rw [State.log_record, RunLog.statuses_append]
    rfl
  refine ⟨hstatuses ▸ h.counts.count status, fun hcancelled => ?_, ?_⟩
  · have hstatus : status = .notAttempted := by
      cases status with
      | notAttempted => rfl
      | _ => exact hlate hcancelled
    exact State.cancelled_tell (hs hstatus)
  · rw [hstatuses]
    refine List.pairwise_append.mpr ⟨h.attemptedFirst, List.pairwise_singleton _ _, ?_⟩
    rintro earlier hearlier later hlater rfl
    rw [List.mem_singleton.mp hlater]
    exact hlate (h.counts.cancelled_iff_mem.mpr hearlier)

variable (e : Engine) (sink : Sink σ) (channel : ChannelSize) (total : ℕ)

/-- **One statement is told as it should be**, and the totals stay right. -/
theorem traced_step (h : st.Tallied) (statement : ScriptStatement) :
    ∃ part, (step e sink.logged channel total st statement).log = st.log ++ part
      ∧ StatementTrace total statement part
      ∧ (step e sink.logged channel total st statement).Tallied
      ∧ (step e sink.logged channel total st statement).summary.total = st.summary.total := by
  by_cases hstop : (st.summary.cancelled || st.session.cancelled) = true
  · have hcancelled : st.session.cancelled = true := by
      rcases Bool.or_eq_true _ _ |>.mp hstop with hfound | hcancelled
      · exact h.cancelled hfound
      · exact hcancelled
    rw [step, if_pos hstop]
    exact ⟨_, State.log_record .., .skipped hcancelled,
      h.record total statement (fun _ => rfl) fun _ => hcancelled, rfl⟩
  · let started := st.tell sink.logged (.started statement)
    have hstarted : started.Tallied := h.tell rfl
    have hstatus := e.carryOut_ne_notAttempted statement.text channel started.session
    have hstep : step e sink.logged channel total st statement
        = State.record sink.logged total statement
          (e.carryOut statement.text channel started.session).1
          { started with session := (e.carryOut statement.text channel started.session).2 } :=
      if_neg hstop
    rw [hstep]
    generalize e.carryOut statement.text channel started.session = carried at hstatus
    obtain ⟨status, session⟩ := carried
    rw [Bool.not_eq_true, Bool.or_eq_false_iff] at hstop
    have hlog : (State.record sink.logged total statement status { started with session }).log
        = st.log ++ [(.started statement, st.session),
          (.recorded ⟨statement.position, total, statement.text, status⟩, session)] :=
      List.append_assoc st.log [_] [_]
    have hfresh : started.summary.cancelled ≠ true := Bool.eq_false_iff.mp hstop.1
    exact ⟨_, hlog, .attempted hstop.2 hstatus,
      hstarted.record total statement (fun hfound => absurd hfound hfresh)
        fun hnot => absurd hnot hstatus, RunSummary.total_count ..⟩

/-- **All statements are told as they should be**, one after the other. -/
theorem traced_foldl (h : st.Tallied) (statements : List ScriptStatement) :
    let last := statements.foldl (step e sink.logged channel total) st
    ∃ parts, last.log = st.log ++ parts.flatten
      ∧ List.Forall₂ (StatementTrace total) statements parts
      ∧ last.Tallied ∧ last.summary.total = st.summary.total := by
  induction statements generalizing st with
  | nil => exact ⟨[], (List.append_nil _).symm, .nil, h, rfl⟩
  | cons statement statements ih =>
    obtain ⟨part, hlog, hpart, htallied, htotal⟩ := traced_step e sink channel total h statement
    obtain ⟨parts, hlogs, hparts, hlast, htotals⟩ := ih htallied
    refine ⟨part :: parts, ?_, .cons hpart hparts, hlast, htotals.trans htotal⟩
    rw [List.foldl_cons, hlogs, hlog, List.append_assoc, List.flatten_cons]

end Runner

/-! ## The whole run -/

/-- The statements on some lines are numbered one after the other. -/
theorem Script.positions_statementsFrom (position line : ℕ) (ls : List (List Char)) :
    (statementsFrom position line ls).map ScriptStatement.position
      = List.range' position (statementsFrom position line ls).length := by
  induction ls generalizing position line with
  | nil => rfl
  | cons l ls ih =>
    unfold statementsFrom
    split
    · exact ih position (line + 1)
    · rw [List.map_cons, List.length_cons, List.range'_succ, ih]

/-- **A run tells its messages in order, and its totals are right**, whatever
the engine and the sink do. It tells that it begins, what belongs to each
statement of the script in turn, numbered from one, and at the end the summary
that it returns. The statements it attempts come first. The summary counts
each of them under what was reported of it, and says that the run was
cancelled if one was not attempted. -/
theorem run_traced_and_counted {σ : Type} (e : Engine) (sink : Sink σ) (source text : String)
    (channel : ChannelSize) (s : Session) (state : σ) :
    let script := Script.parse source text
    let log := e.log sink script channel s state
    let summary := (e.run sink script channel s state).summary
    script.statements.map ScriptStatement.position = List.range' 1 script.size
      ∧ (∃ parts seen, log = (.opened script, s) :: (parts.flatten ++ [(.finished summary, seen)])
        ∧ List.Forall₂ (StatementTrace script.size) script.statements parts)
      ∧ AttemptedFirst (RunLog.statuses log)
      ∧ summary.CountsOf (RunLog.statuses log)
      ∧ summary.succeeded + summary.failed + summary.notAttempted = summary.total
      ∧ summary.total = script.size := by
  intro script log summary
  let start : Runner.State (σ × RunLog) :=
    { session := s, sink := (state, []),
      summary := { source := script.source, total := script.size } }
  have hstart : start.Tallied := ⟨⟨rfl, rfl, rfl, by simp [start]⟩, nofun, .nil⟩
  have hopened : (start.tell sink.logged (.opened script)).Tallied := hstart.tell rfl
  obtain ⟨parts, hlog, hparts, hlast, htotal⟩ :=
    Runner.traced_foldl e sink channel script.size hopened script.statements
  set last := script.statements.foldl (Runner.step e sink.logged channel script.size)
    (start.tell sink.logged (.opened script))
  have hdone : (last.tell sink.logged (.finished last.summary)).Tallied := hlast.tell rfl
  have hsummary : summary = last.summary :=
    (congrArg Runner.State.summary (e.unlogged_run sink script channel s state)).symm
  have hlog' : log = (.opened script, s)
      :: (parts.flatten ++ [(.finished last.summary, last.session)]) := by
    show last.log ++ [_] = _
    rw [hlog]
    rfl
  have hlength : (RunLog.statuses log).length = script.size := by
    rw [hlog', ← List.singleton_append, RunLog.statuses_append, RunLog.statuses_append]
    exact (congrArg List.length (List.append_nil _)).trans (length_statuses_flatten hparts)
  rw [hsummary]
  exact ⟨Script.positions_statementsFrom 1 1 _, ⟨parts, last.session, hlog', hparts⟩,
    hdone.attemptedFirst, hdone.counts, hdone.counts.add_eq_length.trans (hlength.trans htotal.symm),
    htotal⟩

end TripleScript
