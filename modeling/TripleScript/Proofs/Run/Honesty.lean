import TripleScript.Proofs.Run.Log
import TripleScript.Proofs.Session.Frame
import TripleScript.Run.Engine

/-!
# Reports tell what happened to the store

Whoever reads the reports of a run knows what has become of the store: take
what it held before, and for every statement that is reported as succeeded do
what its text says – a union for the triples it inserts, a difference for
those it deletes, nothing for a query. Statements that failed at any stage,
and those that were not attempted, have left no trace.

This holds for every script, with every sink, and with every trouble a store
or a sink can make: requests that fail, and cancellation at any moment. The
step is `Engine.contents_carryOut`, one statement on its way through the
three stages; `Runner.honest_step` takes it to the log of a run, and
`reports_tell_contents` states it for a whole run, at every message.
-/

namespace TripleScript

/-! ## What a statement does -/

/-- What a command makes of a set of triples if it succeeds. -/
def Command.onSet (S : Finset Triple) : Command → Finset Triple
  | insert ts => S ∪ ts.toFinset
  | delete ts => S \ ts.toFinset
  | select _ => S

/-- What the statement of a report has made of a set of triples, going by its
text and its status alone. -/
def StatementReport.onSet (S : Finset Triple) (r : StatementReport) : Finset Triple :=
  match r.status, Command.compile r.text with
  | .succeeded _, .ok c => c.onSet S
  | _, _ => S

/-- **A statement that did not succeed has done nothing.** -/
theorem StatementReport.onSet_of_not_succeeded (S : Finset Triple) {r : StatementReport}
    (h : ∀ table, r.status ≠ .succeeded table) : r.onSet S = S := by
  unfold onSet
  split
  · next table _ hs _ => exact absurd hs (h table)
  · rfl

/-- A plan does what its command says. -/
theorem onSet_of_plan {c : Command} {capacity : ℕ} {p : Plan} {s s' : Session}
    (h : c.plan capacity s = .ok p s') (S : Finset Triple) : p.onSet S = c.onSet S := by
  cases c <;>
  · simp only [Command.plan, bind, EStateM.bind] at h
    split at h <;> cases h
    rfl

/-- What the third stage makes of the store goes by the status it gives. -/
theorem contents_execute (p : Plan) (s : Session) :
    (Engine.standard.execute p s).2.contents
      = match (Engine.standard.execute p s).1.status with
        | .succeeded _ => p.onSet s.contents
        | _ => s.contents := by
  have h := contents_run p true s
  show (p.run true s).2.contents = match (Engine.ofEnding (p.run true s).1).status with
    | .succeeded _ => p.onSet s.contents
    | _ => s.contents
  rw [h]
  cases (p.run true s).1 with
  | abandoned => rfl
  | finished result => cases result <;> rfl

namespace Engine

/-- The way of a statement through the standard engine. -/
theorem carryOut_standard (text : String) (channel : ChannelSize) (s : Session) :
    standard.carryOut text channel s
      = match Command.compile text with
        | .error e => (.failed ⟨.compile, e.message⟩, s)
        | .ok c =>
          match c.plan channel.capacity s with
          | .error e s => (.failed ⟨.plan, e.message⟩, s)
          | .ok p s =>
            if s.cancelled then (Execution.abandoned.status, s)
            else ((standard.execute p s).1.status, (standard.execute p s).2) := by
  unfold carryOut
  cases hc : Command.compile text with
  | error e => simp only [standard, hc, Attempt.contain]
  | ok c =>
    cases hp : c.plan channel.capacity s with
    | error e s' => simp only [standard, hc, hp, Attempt.contain]
    | ok p s' => simp only [standard, hc, hp, Attempt.contain]

/-- **A statement does what its status says**: all that its text asks for if it
succeeds, and nothing if it does not, at whatever stage it fails. -/
theorem contents_carryOut (position total : ℕ) (text : String) (channel : ChannelSize)
    (s : Session) :
    (standard.carryOut text channel s).2.contents
      = StatementReport.onSet s.contents
        ⟨position, total, text, (standard.carryOut text channel s).1⟩ := by
  rw [carryOut_standard]
  unfold StatementReport.onSet
  cases Command.compile text with
  | error e => rfl
  | ok c =>
    dsimp only
    cases hp : c.plan channel.capacity s with
    | error e s' => exact ((keepsStore_plan _ c).of_error hp).contents_eq
    | ok p s' =>
      -- planning has only read, so the plan starts from the same set
      have hs : s'.contents = s.contents := ((keepsStore_plan _ c).of_ok hp).contents_eq
      dsimp only
      split
      case isTrue => exact hs
      case isFalse =>
        rw [contents_execute, hs, onSet_of_plan hp]
        cases (standard.execute p s').1.status <;> rfl

end Engine

/-! ## What a run does -/

/-- **An honest log**: what the sink saw the store hold at a message is what
the reports up to that message make of the set at the beginning. -/
def RunLog.Honest (S : Finset Triple) (log : RunLog) : Prop :=
  ∀ before m seen, before ++ [(m, seen)] <+: log →
    seen.contents
      = (RunLog.reports (before ++ [(m, seen)])).foldl StatementReport.onSet S

/-- An honest log stays honest if it is honest about one more message. -/
theorem RunLog.Honest.concat {S : Finset Triple} {log : RunLog} (h : log.Honest S)
    {m : Message} {s : Session}
    (hs : s.contents = (RunLog.reports (log ++ [(m, s)])).foldl StatementReport.onSet S) :
    RunLog.Honest S (log ++ [(m, s)]) := by
  intro before m' seen hpre
  rcases List.prefix_concat_iff.mp hpre with heq | hpre
  · rw [heq]
    obtain ⟨-, heq⟩ := List.append_inj' heq rfl
    cases heq
    exact hs
  · exact h before m' seen hpre

namespace Runner

variable {σ : Type} {S : Finset Triple} {st : State (σ × RunLog)}

/-- The run has been honest so far, and the store is what its reports say. -/
structure State.Honest (S : Finset Triple) (st : State (σ × RunLog)) : Prop where
  /-- Every message was honest. -/
  log : RunLog.Honest S st.log
  /-- So is what the store holds now. -/
  contents : st.session.contents
    = (RunLog.reports st.log).foldl StatementReport.onSet S

/-- A message leaves what the store holds. -/
theorem contents_tell (sink : Sink σ) (m : Message) (st : State σ) :
    (st.tell sink m).session.contents = st.session.contents := by
  unfold State.tell
  dsimp only
  split <;> rfl

/-- A message that brings no report is honest. -/
theorem State.Honest.tell (h : st.Honest S) (sink : Sink σ) {m : Message}
    (hm : m.report? = none) : (st.tell sink.logged m).Honest S := by
  have hreports : RunLog.reports (st.log ++ [(m, st.session)]) = RunLog.reports st.log := by
    rw [RunLog.reports_append, RunLog.reports_singleton, hm]
    exact List.append_nil _
  refine ⟨h.log.concat ?_, ?_⟩
  · rw [hreports]
    exact h.contents
  · rw [contents_tell, State.log_tell, hreports]
    exact h.contents

/-- **A report is honest if the store is what it makes of the reports before
it.** -/
theorem State.Honest.record {s : Session} (h : st.Honest S) (sink : Sink σ) (total : ℕ)
    (statement : ScriptStatement) (status : Status)
    (hs : s.contents = StatementReport.onSet st.session.contents
      ⟨statement.position, total, statement.text, status⟩) :
    (State.record sink.logged total statement status { st with session := s }).Honest S := by
  have hall : s.contents = (RunLog.reports (st.log
      ++ [(.recorded ⟨statement.position, total, statement.text, status⟩, s)])).foldl
        StatementReport.onSet S := by
    rw [RunLog.reports_append, List.foldl_append, ← h.contents]
    exact hs
  refine ⟨h.log.concat hall, ?_⟩
  unfold State.record
  rw [contents_tell]
  exact hall

/-- **One statement of a run is honest.** -/
theorem honest_step (h : st.Honest S) (sink : Sink σ) (channel : ChannelSize) (total : ℕ)
    (statement : ScriptStatement) :
    (step Engine.standard sink.logged channel total st statement).Honest S := by
  unfold step
  split
  case isTrue =>
    exact h.record sink total statement .notAttempted rfl
  case isFalse =>
    exact (h.tell sink rfl).record sink total statement _
      (Engine.contents_carryOut statement.position total statement.text channel _)

/-- A statement is reported once, under its position and its text. -/
theorem reports_step (e : Engine) (sink : Sink σ) (channel : ChannelSize) (total : ℕ)
    (st : State (σ × RunLog)) (statement : ScriptStatement) :
    ∃ status, RunLog.reports (step e sink.logged channel total st statement).log
      = RunLog.reports st.log ++ [⟨statement.position, total, statement.text, status⟩] := by
  unfold step
  split
  case isTrue =>
    refine ⟨.notAttempted, ?_⟩
    rw [State.log_record, RunLog.reports_append, RunLog.reports_singleton]
    rfl
  case isFalse =>
    refine ⟨(e.carryOut statement.text channel
      (st.tell sink.logged (.started statement)).session).1, ?_⟩
    show RunLog.reports (st.log ++ [(.started statement, st.session)] ++ [_]) = _
    rw [RunLog.reports_append, RunLog.reports_append, RunLog.reports_singleton,
      RunLog.reports_singleton]
    exact congrArg (· ++ _) (List.append_nil _)

/-- **The statements of a run are honest**, one after the other, and each is
reported once, in order. -/
theorem honest_foldl_step (h : st.Honest S) (sink : Sink σ) (channel : ChannelSize)
    (total : ℕ) (statements : List ScriptStatement) :
    (statements.foldl (step Engine.standard sink.logged channel total) st).Honest S
      ∧ (RunLog.reports
          (statements.foldl (step Engine.standard sink.logged channel total) st).log).map
            (fun r => (r.position, r.total, r.text))
        = (RunLog.reports st.log).map (fun r => (r.position, r.total, r.text))
          ++ statements.map fun x => (x.position, total, x.text) := by
  induction statements generalizing st with
  | nil => exact ⟨h, (List.append_nil _).symm⟩
  | cons statement statements ih =>
    obtain ⟨status, hreports⟩ := reports_step Engine.standard sink channel total st statement
    obtain ⟨hhonest, hmap⟩ := ih (honest_step h sink channel total statement)
    refine ⟨hhonest, ?_⟩
    rw [List.foldl_cons, hmap, hreports, List.map_append, List.append_assoc]
    rfl

end Runner

/-- **Reports tell what happened to the store.** In every run of the standard
engine – any script, any sink, any store with any faults in wait, cancelled at
any moment – each statement is reported once and in order, and both at every
message and at the end the store holds what the reports so far make of the set
at the beginning: the statements that succeeded have been carried out, in
order, and nothing else has happened. -/
theorem reports_tell_contents {σ : Type} (sink : Sink σ) (script : Script)
    (channel : ChannelSize) (s : Session) (state : σ) :
    let log := Engine.standard.log sink script channel s state
    (RunLog.reports log).map (fun r => (r.position, r.total, r.text))
        = script.statements.map (fun x => (x.position, script.size, x.text))
      ∧ (∀ before m seen, before ++ [(m, seen)] <+: log → seen.contents
          = (RunLog.reports (before ++ [(m, seen)])).foldl StatementReport.onSet s.contents)
      ∧ (Engine.standard.run sink script channel s state).session.contents
        = (RunLog.reports log).foldl StatementReport.onSet s.contents := by
  intro log
  let start : Runner.State (σ × RunLog) :=
    { session := s, sink := (state, []),
      summary := { source := script.source, total := script.size } }
  have hstart : start.Honest s.contents := by
    refine ⟨fun before m seen hpre => ?_, rfl⟩
    simpa using List.prefix_nil.mp hpre
  have hopened := hstart.tell sink (m := .opened script) rfl
  let last := script.statements.foldl
    (Runner.step Engine.standard sink.logged channel script.size)
    (start.tell sink.logged (.opened script))
  obtain ⟨hran, hmap⟩ : last.Honest s.contents ∧ _ :=
    Runner.honest_foldl_step hopened sink channel script.size script.statements
  have hdone := hran.tell sink (m := .finished last.summary) rfl
  refine ⟨?_, hdone.log, ?_⟩
  · show (RunLog.reports (last.log ++ [(.finished last.summary, last.session)])).map _ = _
    rw [RunLog.reports_append, RunLog.reports_singleton]
    exact (congrArg (List.map _) (List.append_nil _)).trans hmap
  · rw [← Engine.unlogged_run]
    exact hdone.contents

end TripleScript
