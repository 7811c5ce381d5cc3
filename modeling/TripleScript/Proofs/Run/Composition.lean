import TripleScript.Proofs.Run.Calm
import TripleScript.Proofs.Run.Joining
import TripleScript.Proofs.Run.Trace
import TripleScript.Run.Rehearsal

/-!
# Running scripts one after the other

Nothing but the store passes from one statement of a run to the next. With
whatever engine, as long as nobody cancels the run, two scripts joined into
one are told about as if the second had been run by itself on the store that
the first has left, places aside (`run_append`).

What an engine makes of some statements on a session is its `Engine.passage`,
a recursion over the statements with nothing in it but the session. A sink
that does not cancel (`Sink.Quiet`) leaves the session to the engine, so a
run, for all its sink, its summary and its own mark for a cancellation, is the
passage of its statements for as long as each of them is reached
(`Engine.log_of_reaches`). And whether each is reached can be read off the
summary (`Engine.cancelled_eq_false_iff`). The passage of a joined script is
one passage behind the other (`Engine.passage_append`).
-/

namespace TripleScript

variable {σ : Type}

/-- **A sink through which nobody cancels a run.** It may do with a message
what it likes, and fail to take it. -/
def Sink.Quiet (sink : Sink σ) : Prop :=
  ∀ m s state, (sink.take m s state).1.cancels = false

/-- Keeping a log does not cancel. -/
theorem Sink.Quiet.logged {sink : Sink σ} (h : sink.Quiet) : sink.logged.Quiet :=
  fun m s state => h m s state.1

/-- A message to a quiet sink leaves the session as it is. -/
theorem Sink.Quiet.session_tell {sink : Sink σ} (h : sink.Quiet) (m : Message)
    (st : Runner.State σ) : (st.tell sink m).session = st.session := by
  unfold Runner.State.tell
  dsimp only
  rw [h, if_neg Bool.false_ne_true]

/-! ## Passing through statements -/

/-- The report so many places further on, in a run of so many statements. -/
def StatementReport.moved (places total : ℕ) (r : StatementReport) : StatementReport :=
  { r with position := r.position + places, total }

namespace Engine

variable (e : Engine) (channel : ChannelSize)

/-- **What is told about some statements** out of `total` that are carried out
one after the other, and the session behind them. -/
def passage (total : ℕ) : List ScriptStatement → Session → RunLog × Session
  | [], s => ([], s)
  | x :: xs, s =>
    let carried := e.carryOut x.text channel s
    let behind := passage total xs carried.2
    ((.started x, s) :: (.recorded ⟨x.position, total, x.text, carried.1⟩, carried.2)
      :: behind.1, behind.2)

/-- **Each statement is reached**: the session is not cancelled when it is
its turn. -/
def Reaches : List ScriptStatement → Session → Prop
  | [], _ => True
  | x :: xs, s => s.cancelled = false ∧ Reaches xs (e.carryOut x.text channel s).2

variable {e channel} {xs ys : List ScriptStatement} {s : Session} (total : ℕ)

/-- **Further statements are passed through from where the first have led.** -/
theorem passage_append :
    e.passage channel total (xs ++ ys) s
      = ((e.passage channel total xs s).1
          ++ (e.passage channel total ys (e.passage channel total xs s).2).1,
        (e.passage channel total ys (e.passage channel total xs s).2).2) := by
  induction xs generalizing s with
  | nil => rfl
  | cons x xs ih =>
    rw [List.cons_append, passage, ih]
    rfl

theorem reaches_append :
    e.Reaches channel (xs ++ ys) s
      ↔ e.Reaches channel xs s ∧ e.Reaches channel ys (e.passage channel total xs s).2 := by
  induction xs generalizing s with
  | nil => exact (and_iff_right trivial).symm
  | cons x xs ih =>
    rw [List.cons_append, Reaches, Reaches, ih, and_assoc]
    rfl

/-- **Places and lines make no difference** to what comes of statements. -/
theorem passage_moved (e : Engine) (channel : ChannelSize) (xs : List ScriptStatement)
    (s : Session) (places lines total' : ℕ) :
    (e.passage channel total' (xs.map (ScriptStatement.moved places lines)) s).1.reports
        = (e.passage channel total xs s).1.reports.map (StatementReport.moved places total')
      ∧ (e.passage channel total' (xs.map (ScriptStatement.moved places lines)) s).2
        = (e.passage channel total xs s).2 := by
  induction xs generalizing s with
  | nil => exact ⟨rfl, rfl⟩
  | cons x xs ih =>
    obtain ⟨hreports, hsession⟩ := ih (e.carryOut x.text channel s).2
    exact ⟨congrArg (List.cons _) hreports, hsession⟩

theorem reaches_moved (places lines : ℕ) :
    e.Reaches channel (xs.map (ScriptStatement.moved places lines)) s
      ↔ e.Reaches channel xs s := by
  induction xs generalizing s with
  | nil => rfl
  | cons x xs ih => exact and_congr_right fun _ => ih

/-- Statements that are reached start from the store, and from nothing else. -/
theorem passage_of_store (h : e.Reaches channel xs s) :
    (e.passage channel total xs { store := s.store }).1.reports
        = (e.passage channel total xs s).1.reports
      ∧ (e.passage channel total xs { store := s.store }).2.store
        = (e.passage channel total xs s).2.store
      ∧ e.Reaches channel xs { store := s.store } := by
  cases xs with
  | nil => exact ⟨rfl, rfl, trivial⟩
  | cons x xs =>
    have hs : ({ store := s.store } : Session) = s := by rw [← h.1]
    rw [hs]
    exact ⟨rfl, rfl, h⟩

end Engine

/-! ## A run is a passage -/

namespace Runner

variable (e : Engine) {sink : Sink σ} (channel : ChannelSize) (total : ℕ)

/-- A run that was found cancelled remembers it. -/
theorem summary_cancelled_foldl {e : Engine} {channel : ChannelSize} {total : ℕ} {st : State σ}
    (h : st.summary.cancelled = true)
    (xs : List ScriptStatement) :
    (xs.foldl (step e sink channel total) st).summary.cancelled = true := by
  induction xs generalizing st with
  | nil => exact h
  | cons x xs ih =>
    refine ih ?_
    unfold step
    rw [h, Bool.true_or, if_pos rfl]
    rfl

/-- **One statement of a run that is not cancelled** is carried out, and told
about before and behind. -/
theorem step_of_quiet (hsink : sink.Quiet) {st : State (σ × RunLog)} (x : ScriptStatement)
    (hsummary : st.summary.cancelled = false) (hsession : st.session.cancelled = false) :
    let next := step e sink.logged channel total st x
    let carried := e.carryOut x.text channel st.session
    next.session = carried.2 ∧ next.summary.cancelled = false
      ∧ next.log = st.log ++ [(.started x, st.session),
        (.recorded ⟨x.position, total, x.text, carried.1⟩, carried.2)] := by
  intro next carried
  have hgoes : ¬(st.summary.cancelled || st.session.cancelled) = true := by
    rw [hsummary, hsession]
    exact Bool.false_ne_true
  have hstarted : (st.tell sink.logged (.started x)).session = st.session :=
    hsink.logged.session_tell _ st
  have hnext : next = State.record sink.logged total x carried.1
      { st.tell sink.logged (.started x) with session := carried.2 } := by
    show step e sink.logged channel total st x = _
    unfold step
    rw [if_neg hgoes]
    dsimp only
    rw [hstarted]
  have hstatus : carried.1 ≠ .notAttempted := e.carryOut_ne_notAttempted _ _ _
  rw [hnext]
  refine ⟨hsink.logged.session_tell _ _, ?_, ?_⟩
  · show (st.summary.count carried.1).cancelled = false
    cases hcarried : carried.1 with
    | notAttempted => exact absurd hcarried hstatus
    | _ => exact hsummary
  · rw [State.log_record]
    exact List.append_assoc st.log [_] [_]

/-- **A run is the passage of its statements** if each of them is reached, and
if its summary does not say that it was found cancelled, each of them is. -/
theorem foldl_of_quiet (hsink : sink.Quiet) (xs : List ScriptStatement)
    {st : State (σ × RunLog)} (hst : st.summary.cancelled = false) :
    let last := xs.foldl (step e sink.logged channel total) st
    let passed := e.passage channel total xs st.session
    (last.summary.cancelled = false ↔ e.Reaches channel xs st.session)
      ∧ (e.Reaches channel xs st.session →
        last.session = passed.2 ∧ last.log = st.log ++ passed.1) := by
  induction xs generalizing st with
  | nil => exact ⟨iff_of_true hst trivial, fun _ => ⟨rfl, (List.append_nil _).symm⟩⟩
  | cons x xs ih =>
    intro last passed
    cases hsession : st.session.cancelled with
    | true =>
      have hfound : (step e sink.logged channel total st x).summary.cancelled = true := by
        unfold step
        rw [hsession, Bool.or_true, if_pos rfl]
        rfl
      have hlast : last.summary.cancelled = true := summary_cancelled_foldl hfound xs
      have hnot : ¬e.Reaches channel (x :: xs) st.session := fun h => by
        rw [h.1] at hsession
        cases hsession
      exact ⟨iff_of_false (by rw [hlast]; exact nofun) hnot, fun h => absurd h hnot⟩
    | false =>
      obtain ⟨hnext, hsummary, hlog⟩ := step_of_quiet e channel total hsink x hst hsession
      obtain ⟨hiff, hpassage⟩ := ih hsummary
      rw [hnext] at hiff hpassage
      refine ⟨hiff.trans (and_iff_right hsession).symm, fun h => ?_⟩
      obtain ⟨hlast, hlogs⟩ := hpassage h.2
      refine ⟨hlast, hlogs.trans ?_⟩
      rw [hlog, List.append_assoc]
      rfl

end Runner

namespace Engine

variable {e : Engine} {sink : Sink σ} {script : Script} {channel : ChannelSize} {s : Session}
  (state : σ)

/-- **The summary says whether each statement was reached**, if nobody cancels
the run through its sink. -/
theorem cancelled_eq_false_iff (hsink : sink.Quiet) :
    (e.run sink script channel s state).summary.cancelled = false
      ↔ e.Reaches channel script.statements s := by
  rw [← unlogged_run]
  let start : Runner.State (σ × RunLog) :=
    { session := s, sink := (state, []),
      summary := { source := script.source, total := script.size } }
  have hopened := hsink.logged.session_tell (.opened script) start
  let opened := start.tell sink.logged (.opened script)
  have hst : opened.summary.cancelled = false := rfl
  have hiff := (Runner.foldl_of_quiet e channel script.size hsink script.statements hst).1
  rw [hopened] at hiff
  exact hiff

/-- **What is told in a run** that reaches each of its statements, and where it
ends: between the first message and the last one it is the passage of the
statements. -/
theorem log_of_reaches (hsink : sink.Quiet) (h : e.Reaches channel script.statements s) :
    let passed := e.passage channel script.size script.statements s
    (∃ summary, e.log sink script channel s state
        = (.opened script, s) :: (passed.1 ++ [(.finished summary, passed.2)]))
      ∧ (e.run sink script channel s state).session = passed.2 := by
  intro passed
  let start : Runner.State (σ × RunLog) :=
    { session := s, sink := (state, []),
      summary := { source := script.source, total := script.size } }
  let opened := start.tell sink.logged (.opened script)
  let last := script.statements.foldl (Runner.step e sink.logged channel script.size) opened
  have hopened : opened.session = s := hsink.logged.session_tell _ start
  have hst : opened.summary.cancelled = false := rfl
  obtain ⟨hsession, hlog⟩ :=
    (Runner.foldl_of_quiet e channel script.size hsink script.statements hst).2 (hopened.symm ▸ h)
  rw [hopened] at hsession hlog
  constructor
  · refine ⟨last.summary, ?_⟩
    show last.log ++ [(_, last.session)] = _
    rw [hlog, hsession]
    rfl
  · rw [← unlogged_run]
    exact (hsink.logged.session_tell _ last).trans hsession

/-- The reports of a run are those of the passage. -/
theorem reports_of_reaches (hsink : sink.Quiet) (h : e.Reaches channel script.statements s) :
    (e.log sink script channel s state).reports
      = (e.passage channel script.size script.statements s).1.reports := by
  obtain ⟨⟨summary, hlog⟩, -⟩ := log_of_reaches state hsink h
  rw [hlog, ← List.singleton_append, RunLog.reports_append, RunLog.reports_append]
  exact List.append_nil _

end Engine

/-! ## Two scripts -/

/-- **Running scripts composes**, whatever the engine makes of its statements:
its stages may succeed, fail or break down, and do to the session what they
like. If nobody cancels a run through its sink, and the run of two script
texts joined by a line feed is not found cancelled before a statement, then
neither are the run of the first and the run of the second on the store that
the first has left. What the joined script reports is what the first reports
and then what the second does, so many places later as the first has
statements, and both leave the same store. -/
theorem run_append (e : Engine) {sink : Sink σ} (hsink : sink.Quiet) (source a b : String)
    (channel : ChannelSize) (store : Store) (state state₁ state₂ : σ)
    (h : (e.run sink (Script.parse source (a ++ "\n" ++ b)) channel { store }
      state).summary.cancelled = false) :
    let joined := Script.parse source (a ++ "\n" ++ b)
    let first := Script.parse source a
    let second := Script.parse source b
    let left := (e.run sink first channel { store } state₁).session.store
    joined.size = first.size + second.size
      ∧ (e.log sink joined channel { store } state).reports
        = (e.log sink first channel { store } state₁).reports.map
            (StatementReport.moved 0 joined.size)
          ++ (e.log sink second channel { store := left } state₂).reports.map
            (StatementReport.moved first.size joined.size)
      ∧ (e.run sink joined channel { store } state).session.store
        = (e.run sink second channel { store := left } state₂).session.store
      ∧ (e.run sink first channel { store } state₁).summary.cancelled = false
      ∧ (e.run sink second channel { store := left } state₂).summary.cancelled = false := by
  intro joined first second left
  have hstatements : joined.statements = first.statements.map (ScriptStatement.moved 0 0)
      ++ second.statements.map
        (ScriptStatement.moved first.size (a.toList.count '\n' + 1)) := by
    rw [ScriptStatement.moved_zero, List.map_id]
    exact Script.parse_append source a b
  -- the first part of the joined script leads where its own run does, and the
  -- second one goes on from there
  let lead := (e.passage channel first.size first.statements { store }).2
  obtain ⟨hfront, hlead⟩ :=
    Engine.passage_moved first.size e channel first.statements { store } 0 0 joined.size
  obtain ⟨hback, hend⟩ := Engine.passage_moved second.size e channel second.statements lead
    first.size (a.toList.count '\n' + 1) joined.size
  have hreached := (Engine.cancelled_eq_false_iff state hsink).mp h
  have hsession := (Engine.log_of_reaches state hsink hreached).2
  have hreports := Engine.reports_of_reaches state hsink hreached
  rw [hstatements, Engine.reaches_append joined.size, Engine.reaches_moved,
    Engine.reaches_moved, hlead] at hreached
  rw [hstatements, Engine.passage_append, hlead] at hsession hreports
  obtain ⟨hreached₁, hreached₂⟩ := hreached
  have hleft : left = lead.store :=
    congrArg Session.store (Engine.log_of_reaches state₁ hsink hreached₁).2
  obtain ⟨hreports₂, hstore₂, hreached₂⟩ := Engine.passage_of_store second.size hreached₂
  rw [← hleft] at hreports₂ hstore₂ hreached₂
  refine ⟨?_, ?_, ?_, (Engine.cancelled_eq_false_iff state₁ hsink).mpr hreached₁,
    (Engine.cancelled_eq_false_iff state₂ hsink).mpr hreached₂⟩
  · have hlength := congrArg List.length hstatements
    rwa [List.length_append, List.length_map, List.length_map] at hlength
  · rw [Engine.reports_of_reaches _ hsink hreached₁, Engine.reports_of_reaches _ hsink hreached₂,
      hreports₂]
    refine hreports.trans ?_
    rw [RunLog.reports_append, hfront, hback]
  · rw [(Engine.log_of_reaches _ hsink hreached₂).2, hstore₂]
    exact congrArg Session.store (hsession.trans hend)

/-- The sink that does nothing does not cancel. -/
theorem Sink.quiet_silent : Sink.silent.Quiet := fun _ _ _ => rfl

/-- Two rehearsals joined where the first ends with a carriage return. Its second
statement breaks down. The third statement repeats the first one and finds that
its triple is there already, as it is in the store that the first rehearsal has
left. -/
theorem run_append_of_breakdown :
    let a := "# rehearsal\none\nplan:panic:boom\r"
    let b := "\none\nexecute:err:late"
    let joined := Script.parse "r" (a ++ "\n" ++ b)
    let store : Store := { memory := { name := "r" } }
    let left := (Rehearsal.engine.run Sink.silent (Script.parse "r" a) ⟨7⟩ { store }
      ()).session.store
    let log := Rehearsal.engine.log Sink.silent joined ⟨7⟩ { store } ()
    let log₁ := Rehearsal.engine.log Sink.silent (Script.parse "r" a) ⟨7⟩ { store } ()
    let log₂ := Rehearsal.engine.log Sink.silent (Script.parse "r" b) ⟨7⟩ { store := left } ()
    log.reports.map (fun r => (r.position, r.status))
        = [(1, .succeeded (Rehearsal.resultTable "one" "7" "1")),
          (2, .failed ⟨.plan, "adapter panicked: boom"⟩),
          (3, .succeeded (Rehearsal.resultTable "one" "7" "0")),
          (4, .failed ⟨.execute, "late"⟩)]
      ∧ log.reports = log₁.reports.map (StatementReport.moved 0 4)
        ++ log₂.reports.map (StatementReport.moved 2 4) := by
  intro a b joined store left log log₁ log₂
  have hstatus : log.reports.map (fun r => (r.position, r.status))
      = [(1, .succeeded (Rehearsal.resultTable "one" "7" "1")),
        (2, .failed ⟨.plan, "adapter panicked: boom"⟩),
        (3, .succeeded (Rehearsal.resultTable "one" "7" "0")),
        (4, .failed ⟨.execute, "late"⟩)] := by
    decide +kernel
  have h : (Rehearsal.engine.run Sink.silent joined ⟨7⟩ { store } ()).summary.cancelled
      = false := by
    decide +kernel
  have hjoined : joined.size = 4 := by decide +kernel
  have hfirst : (Script.parse "r" a).size = 2 := by decide +kernel
  obtain ⟨-, hreports, -⟩ :=
    run_append Rehearsal.engine Sink.quiet_silent "r" a b ⟨7⟩ store () () () h
  rw [hjoined, hfirst] at hreports
  exact ⟨hstatus, hreports⟩

end TripleScript
