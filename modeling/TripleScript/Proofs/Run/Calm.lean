import TripleScript.Proofs.Plan.Sound
import TripleScript.Proofs.Run.Honesty
import TripleScript.Run.Report

/-!
# A run that nothing disturbs

How many triples are handed on at a time, and whether a store finds pages and
counts by its indexes or by scanning, is a matter of how statements are
carried out. What comes of them is not: it depends on the script and on what
the store holds at the beginning. `carriedOut` says what a statement makes of
a store, `Script.course` what a run tells and leaves behind, and neither
knows of a channel or of a way to find pages.

The way there is `Engine.carryOut_of_calm` for one statement and
`Runner.course_step` for one step of a run. A run that is cancelled stays
cancelled (`Runner.cancelled_eq_false_of_foldl`), so one that is not
cancelled in the end was not disturbed at any step, and
`Engine.course_run` follows by induction over the statements.
-/

namespace TripleScript

/-! ## What comes of a statement -/

/-- The plan of a query on what a store holds. -/
def Query.planOn (q : Query) (m : MemoryStore) (capacity : ℕ) : SelectPlan where
  steps := orderScans (scansOn m 0 q.patterns)
  slotCount := q.slots.length
  columns := q.projection.map (q.slots.getD · "")
  projection := q.projection
  distinct := q.distinct
  limit := q.limit
  capacity := max capacity 1

/-- What comes of a write: a store that takes none refuses it when it is
planned. -/
def MemoryStore.written (m : MemoryStore) (verb : Verb)
    (change : MemoryStore → Except SystemError (ℕ × MemoryStore)) :
    Except Failure Table × MemoryStore :=
  if m.readOnly then (.error ⟨.plan, (PlanError.readOnlyStore m.name verb).message⟩, m)
  else
    match change m with
    | .error e => (.error ⟨.execute, (ExecuteError.store e).message⟩, m)
    | .ok (_, m) => (.ok {}, m)

/-- **What comes of a command** on what a store holds, and what it holds
then. -/
def Command.carriedOut (m : MemoryStore) : Command → Except Failure Table × MemoryStore
  | insert ts => m.written .insert (·.insert ts)
  | delete ts => m.written .delete (·.erase ts)
  | select q =>
    let groups := groupCount q.patterns q.slots.length
    if groups > 1 then (.error ⟨.plan, (PlanError.cartesianProduct groups).message⟩, m)
    else (.ok ((q.planOn m 1).fullAnswer m), m)

/-- **What comes of a statement** on what a store holds, and what it holds
then. -/
def carriedOut (text : String) (m : MemoryStore) : Except Failure Table × MemoryStore :=
  match Command.compile text with
  | .error e => (.error ⟨.compile, e.message⟩, m)
  | .ok c => c.carriedOut m

/-- The status that a result is reported with. -/
def Status.ofResult : Except Failure Table → Status
  | .ok table => succeeded table
  | .error failure => failed failure

/-- A statement with a result is not one that the run did not get to. -/
theorem RunSummary.cancelled_count_ofResult (r : RunSummary) (result : Except Failure Table) :
    (r.count (Status.ofResult result)).cancelled = r.cancelled := by
  cases result <;> rfl

variable {s : Session}

/-- An undisturbed session stays so with another memory. -/
theorem Session.Calm.withMemory (hs : s.Calm) (m : MemoryStore) : (s.withMemory m).Calm :=
  ⟨hs.fault, hs.cancelled⟩

/-- **A query is planned by what the store holds**, if the capacity can be
had. -/
theorem Query.plan_of_calm (hs : s.Calm) (q : Query) {capacity : ℕ}
    (hcapacity : max capacity 1 ≤ maxCapacity) :
    q.plan capacity s
      = if groupCount q.patterns q.slots.length > 1
        then .error (.cartesianProduct (groupCount q.patterns q.slots.length)) s
        else .ok (q.planOn s.store.memory capacity) s := by
  unfold Query.plan
  dsimp only
  rw [if_neg (Nat.not_lt.mpr hcapacity)]
  split
  case isTrue => rfl
  case isFalse =>
    simp only [bind, EStateM.bind, EStateM.adaptExcept, estimateScans_of_calm hs]
    rfl

/-- **A write to an undisturbed store is its change.** -/
theorem Session.write_of_calm (hs : s.Calm) (r : Request)
    (change : MemoryStore → Except SystemError (ℕ × MemoryStore)) :
    Session.write r change s
      = match change s.store.memory with
        | .error e => .error e s
        | .ok (n, m) => .ok n (s.withMemory m) := by
  have hpass := Request.pass_of_fault_eq_nil (r := r) hs.fault
  simp only [Session.write, bind, EStateM.bind, hpass, SessionM.get_apply]
  cases change s.store.memory <;> rfl

/-- **A write is refused or planned** by whether the store takes writes. -/
theorem plan_write_apply (verb : Verb) (p : Plan) (s : Session) :
    (do refuseReadOnly verb; return p : SessionM PlanError Plan) s
      = if s.store.memory.readOnly
        then .error (.readOnlyStore s.store.memory.name verb) s else .ok p s := by
  have hrefuse : refuseReadOnly verb s
      = if s.store.memory.readOnly
        then .error (.readOnlyStore s.store.memory.name verb) s else .ok () s := by
    show (if s.store.memory.readOnly then throw (.readOnlyStore s.store.memory.name verb)
      else pure () : SessionM PlanError Unit) s = _
    cases s.store.memory.readOnly <;> rfl
  simp only [bind, EStateM.bind, hrefuse]
  cases s.store.memory.readOnly <;> rfl

namespace Engine

/-- What comes of a command: a plan is made, and carried out unless the run is
cancelled by then. -/
def carryOutCommand (c : Command) (capacity : ℕ) (s : Session) : Status × Session :=
  match c.plan capacity s with
  | .error e s => (.failed ⟨.plan, e.message⟩, s)
  | .ok p s =>
    if s.cancelled then (Execution.abandoned.status, s)
    else ((standard.execute p s).1.status, (standard.execute p s).2)

/-- **What comes of a write that is not disturbed** is what it makes of what
the store holds. -/
theorem carryOutCommand_of_write (hs : s.Calm) {c : Command} {capacity : ℕ} {verb : Verb}
    {r : Request} {p : Plan} {change : MemoryStore → Except SystemError (ℕ × MemoryStore)}
    (hplan : c.plan capacity s = (do refuseReadOnly verb; return p : SessionM PlanError Plan) s)
    (hrun : p.run true s = Ending.ofWrite (Session.write r change) s) :
    carryOutCommand c capacity s
      = (Status.ofResult (s.store.memory.written verb change).1,
        s.withMemory (s.store.memory.written verb change).2) := by
  unfold carryOutCommand MemoryStore.written
  rw [hplan, plan_write_apply]
  cases s.store.memory.readOnly with
  | true => rfl
  | false =>
    rw [if_neg Bool.false_ne_true, if_neg Bool.false_ne_true]
    dsimp only
    rw [if_neg (by simp [hs.cancelled])]
    unfold standard
    dsimp only
    rw [hrun, Ending.ofWrite, Session.write_of_calm hs]
    cases change s.store.memory <;> rfl

/-- **What comes of a command that is not disturbed** depends on what the store
holds. -/
theorem carryOutCommand_of_calm (hs : s.Calm) {text : String} {c : Command} {capacity : ℕ}
    (hcompile : Command.compile text = .ok c) (hcapacity : max capacity 1 ≤ maxCapacity) :
    carryOutCommand c capacity s
      = (Status.ofResult (c.carriedOut s.store.memory).1,
        s.withMemory (c.carriedOut s.store.memory).2) := by
  have hgoes : ¬s.cancelled = true := by simp [hs.cancelled]
  cases c with
  | insert ts =>
    exact carryOutCommand_of_write hs (p := .insert ts) rfl (by rw [Plan.run, if_neg hgoes]; rfl)
  | delete ts =>
    exact carryOutCommand_of_write hs (p := .delete ts) rfl (by rw [Plan.run, if_neg hgoes]; rfl)
  | select q =>
    have hquery := q.plan_of_calm hs hcapacity
    unfold carryOutCommand Command.carriedOut
    dsimp only
    by_cases hgroups : groupCount q.patterns q.slots.length > 1
    · have hplan : (Command.select q).plan capacity s
          = .error (.cartesianProduct (groupCount q.patterns q.slots.length)) s := by
        simp only [Command.plan, bind, EStateM.bind, hquery, if_pos hgroups]
      rw [hplan, if_pos hgroups]
      rfl
    · have hplan : (Command.select q).plan capacity s
          = .ok (.select (q.planOn s.store.memory capacity)) s := by
        simp only [Command.plan, bind, EStateM.bind, hquery, if_neg hgroups]
        rfl
      have hsound := SelectPlan.sound_of_compile hcompile hplan
      have hrun : (Plan.select (q.planOn s.store.memory capacity)).run true s
          = (.finished (.ok ((q.planOn s.store.memory capacity).fullAnswer s.store.memory)), s) := by
        rw [Plan.run, if_neg hgoes]
        exact hsound.run_of_calm true hs
      rw [hplan, if_neg hgroups]
      dsimp only
      rw [if_neg hgoes]
      unfold standard
      dsimp only
      rw [hrun]
      rfl

/-- **What comes of a statement that is not disturbed depends on what the
store holds**, not on the channel and not on the way in which the store finds
pages and counts. -/
theorem carryOut_of_calm (hs : s.Calm) (text : String) {channel : ChannelSize}
    (hchannel : channel.value ≤ maxCapacity) :
    standard.carryOut text channel s
      = (Status.ofResult (carriedOut text s.store.memory).1,
        s.withMemory (carriedOut text s.store.memory).2) := by
  have hcapacity : max channel.capacity 1 ≤ maxCapacity := by
    unfold maxCapacity at hchannel ⊢
    unfold ChannelSize.capacity ChannelSize.usual
    split <;> omega
  rw [carryOut_standard]
  unfold carriedOut
  cases hcompile : Command.compile text with
  | error e => rfl
  | ok c => exact carryOutCommand_of_calm hs hcompile hcapacity

/-- A statement does not undo a cancellation. -/
theorem cancelled_carryOut (text : String) (channel : ChannelSize)
    (hs : s.cancelled = true) : (standard.carryOut text channel s).2.cancelled = true := by
  rw [carryOut_standard]
  cases Command.compile text with
  | error e => exact hs
  | ok c =>
    dsimp only
    cases hplan : c.plan channel.capacity s with
    | error e s' => exact ((keepsStore_plan _ c).of_error hplan).cancelled hs
    | ok p s' =>
      have hs' := ((keepsStore_plan _ c).of_ok hplan).cancelled hs
      dsimp only
      rw [if_pos hs']
      exact hs'

end Engine

/-! ## What a run tells -/

/-- **How far a run has come**, as one can see it from outside. -/
structure Course where
  /-- What it has told, each message with what the store held then. -/
  told : List (Message × MemoryStore)
  /-- What the store holds. -/
  memory : MemoryStore
  /-- The summary so far. -/
  summary : RunSummary

namespace Course

/-- A message is told. -/
def tell (c : Course) (m : Message) : Course :=
  { c with told := c.told ++ [(m, c.memory)] }

/-- **One statement more.** -/
def step (total : ℕ) (c : Course) (statement : ScriptStatement) : Course :=
  let c := c.tell (.started statement)
  let (result, memory) := carriedOut statement.text c.memory
  let status := Status.ofResult result
  tell { c with memory, summary := c.summary.count status }
    (.recorded ⟨statement.position, total, statement.text, status⟩)

end Course

/-- **What a run tells and leaves behind** if nothing disturbs it. -/
def Script.course (script : Script) (m : MemoryStore) : Course :=
  let summary : RunSummary := { source := script.source, total := script.size }
  let opened := Course.tell { told := [], memory := m, summary } (.opened script)
  let c := script.statements.foldl (Course.step script.size) opened
  c.tell (.finished c.summary)

namespace Runner

variable {σ : Type} {sink : Sink σ} {channel : ChannelSize} {total : ℕ}

/-- A message after which the run is not cancelled found it so. -/
theorem State.cancelled_eq_false_of_tell {m : Message} {st : State σ}
    (h : (st.tell sink m).session.cancelled = false) : st.session.cancelled = false := by
  rw [← Bool.not_eq_true] at h ⊢
  exact mt State.cancelled_tell h

/-- A statement that is over without a cancellation began without one. -/
theorem cancelled_eq_false_of_step {statement : ScriptStatement} {st : State σ}
    (h : (step .standard sink channel total st statement).session.cancelled = false) :
    st.session.cancelled = false := by
  unfold step at h
  split at h
  case isTrue => exact State.cancelled_eq_false_of_tell h
  case isFalse hgoes =>
    rw [Bool.not_eq_true, Bool.or_eq_false_iff] at hgoes
    exact hgoes.2

/-- **A run that is not cancelled has not been cancelled before.** -/
theorem cancelled_eq_false_of_foldl {statements : List ScriptStatement} {st : State σ}
    (h : (statements.foldl (step .standard sink channel total) st).session.cancelled = false) :
    st.session.cancelled = false := by
  induction statements generalizing st with
  | nil => exact h
  | cons statement statements ih => exact cancelled_eq_false_of_step (ih h)

/-- **Nothing has disturbed the run** so far. -/
structure State.Calm (st : State σ) : Prop where
  /-- Its session is not disturbed. -/
  session : st.session.Calm
  /-- It has not been found cancelled. -/
  summary : st.summary.cancelled = false

/-- A message that does not cancel the run disturbs nothing. -/
theorem State.Calm.tell {m : Message} {st : State σ} (hst : st.Calm)
    (h : (st.tell sink m).session.cancelled = false) : (st.tell sink m).Calm where
  session := by
    refine ⟨?_, h⟩
    unfold State.tell
    dsimp only
    split <;> exact hst.session.fault
  summary := hst.summary

/-- What can be seen of a run whose sink keeps a log. -/
def State.course (st : State (σ × RunLog)) : Course where
  told := st.log.map fun entry => (entry.1, entry.2.store.memory)
  memory := st.session.store.memory
  summary := st.summary

/-- A message is seen as a message. -/
theorem State.course_tell (m : Message) (st : State (σ × RunLog)) :
    (st.tell sink.logged m).course = st.course.tell m := by
  have hmemory : (st.tell sink.logged m).session.store.memory = st.session.store.memory := by
    unfold State.tell
    dsimp only
    split <;> rfl
  unfold State.course Course.tell
  rw [hmemory, State.log_tell, List.map_append]
  rfl

/-- **One statement of a run is one step of its course**, unless it is
cancelled meanwhile. -/
theorem course_step (hchannel : channel.value ≤ maxCapacity) {statement : ScriptStatement}
    {st : State (σ × RunLog)} (hst : st.Calm)
    (h : (step .standard sink.logged channel total st statement).session.cancelled = false) :
    (step .standard sink.logged channel total st statement).Calm
      ∧ (step .standard sink.logged channel total st statement).course
        = st.course.step total statement := by
  have hgoes : ¬(st.summary.cancelled || st.session.cancelled) = true := by
    simp [hst.summary, hst.session.cancelled]
  unfold step State.record at h ⊢
  rw [if_neg hgoes] at h ⊢
  dsimp only at h ⊢
  -- neither message and nothing between them has cancelled the run
  have hstarted : (st.tell sink.logged (.started statement)).session.cancelled = false := by
    have hcarried := State.cancelled_eq_false_of_tell h
    rw [← Bool.not_eq_true] at hcarried ⊢
    exact mt (Engine.cancelled_carryOut statement.text channel) hcarried
  have hcalm := hst.tell hstarted
  rw [Engine.carryOut_of_calm hcalm.session statement.text hchannel] at h ⊢
  have hseen : (st.tell sink.logged (.started statement)).course
      = st.course.tell (.started statement) := State.course_tell _ st
  have hmemory : (st.tell sink.logged (.started statement)).session.store.memory
      = st.session.store.memory := congrArg Course.memory hseen
  refine ⟨State.Calm.tell ⟨hcalm.session.withMemory _, ?_⟩ h, ?_⟩
  · exact (RunSummary.cancelled_count_ofResult _ _).trans hcalm.summary
  · rw [State.course_tell, hmemory]
    show Course.tell ⟨(st.tell sink.logged (.started statement)).course.told, _, _⟩ _ = _
    rw [hseen]
    rfl

/-- **The statements of a run are the steps of its course.** -/
theorem course_foldl (hchannel : channel.value ≤ maxCapacity)
    {statements : List ScriptStatement} {st : State (σ × RunLog)} (hst : st.Calm)
    (h : (statements.foldl (step .standard sink.logged channel total) st).session.cancelled
      = false) :
    (statements.foldl (step .standard sink.logged channel total) st).course
      = statements.foldl (Course.step total) st.course := by
  induction statements generalizing st with
  | nil => rfl
  | cons statement statements ih =>
    obtain ⟨hcalm, hcourse⟩ := course_step hchannel hst (cancelled_eq_false_of_foldl h)
    rw [List.foldl_cons, List.foldl_cons, ← hcourse]
    exact ih hcalm h

end Runner

/-- **A run that is not cancelled takes the course of its script**: what it
tells and what the store holds at each message, the summary, and what the
store holds in the end. -/
theorem Engine.course_run {σ : Type} {sink : Sink σ} {script : Script} {channel : ChannelSize}
    {state : σ} (hs : s.Calm) (hchannel : channel.value ≤ maxCapacity)
    (h : (standard.run sink script channel s state).session.cancelled = false) :
    (standard.run sink.logged script channel s (state, [])).course
      = script.course s.store.memory := by
  have hlogged : (standard.run sink.logged script channel s (state, [])).session.cancelled
      = false := by
    rw [← Engine.unlogged_run] at h
    exact h
  unfold run at hlogged ⊢
  dsimp only at hlogged ⊢
  have hfold := Runner.State.cancelled_eq_false_of_tell hlogged
  have hopened := Runner.cancelled_eq_false_of_foldl hfold
  have hcourse := Runner.course_foldl hchannel (Runner.State.Calm.tell ⟨hs, rfl⟩ hopened) hfold
  rw [Runner.State.course_tell] at hcourse
  rw [Runner.State.course_tell, hcourse]
  exact congrArg (fun summary => Course.tell _ (.finished summary))
    (congrArg Course.summary hcourse)

/-! ## What a run is blind to -/

/-- The messages of a log. -/
def RunLog.messages (log : RunLog) : List Message :=
  log.map Prod.fst

/-- The report that some messages make, if these are the pieces of each. -/
def reportText (pieces : Message → List String) (messages : List Message) : String :=
  String.join (messages.flatMap pieces)

/-- **The size of the channel and the way in which a store reads cannot be
seen.** Two runs of a script begin on stores that hold the same, without a
fault in wait, and neither is cancelled. They may hand on any number of
triples at a time that can be had, and each store may find pages and counts by
its indexes or, like one that has nothing else, by scanning. Then they tell
the same messages with the same statuses, tables and failures, the stores hold
the same at every message and in the end, and the reports read the same,
plain with any decoration, or JSON. -/
theorem run_eq_of_channel_of_access {σ : Type} (sink : Sink σ) (script : Script) (state : σ)
    (m : MemoryStore) {channel channel' : ChannelSize} (access access' : Access)
    (hchannel : channel.value ≤ maxCapacity) (hchannel' : channel'.value ≤ maxCapacity)
    (h : (Engine.standard.run sink script channel (.begin { memory := m, access })
      state).session.cancelled = false)
    (h' : (Engine.standard.run sink script channel' (.begin { memory := m, access := access' })
      state).session.cancelled = false) :
    let run := Engine.standard.run sink script channel (.begin { memory := m, access }) state
    let run' := Engine.standard.run sink script channel'
      (.begin { memory := m, access := access' }) state
    let log := Engine.standard.log sink script channel (.begin { memory := m, access }) state
    let log' := Engine.standard.log sink script channel'
      (.begin { memory := m, access := access' }) state
    log.map (fun entry => (entry.1, entry.2.store.memory))
        = log'.map (fun entry => (entry.1, entry.2.store.memory))
      ∧ log.reports = log'.reports
      ∧ (∀ decorate, reportText (Plain.pieces decorate) log.messages
        = reportText (Plain.pieces decorate) log'.messages)
      ∧ reportText JsonLines.pieces log.messages = reportText JsonLines.pieces log'.messages
      ∧ run.summary = run'.summary
      ∧ run.session.store.memory = run'.session.store.memory := by
  intro run run' log log'
  have hrun := Engine.course_run (Session.calm_begin m access) hchannel h
  have hrun' := Engine.course_run (Session.calm_begin m access') hchannel' h'
  have hcourse := hrun.trans hrun'.symm
  have htold : log.map (fun entry => (entry.1, entry.2.store.memory))
      = log'.map (fun entry => (entry.1, entry.2.store.memory)) :=
    congrArg Course.told hcourse
  have hmessages : log.messages = log'.messages := by
    have hfst := congrArg (List.map Prod.fst) htold
    rwa [List.map_map, List.map_map] at hfst
  have hreports : ∀ log : RunLog, log.reports = log.messages.filterMap Message.report? := by
    intro log
    unfold RunLog.messages RunLog.reports
    rw [List.filterMap_map]
    rfl
  have hunlogged := Engine.unlogged_run .standard sink script channel
    (.begin { memory := m, access }) state
  have hunlogged' := Engine.unlogged_run .standard sink script channel'
    (.begin { memory := m, access := access' }) state
  refine ⟨htold, ?_, fun decorate => ?_, ?_, ?_, ?_⟩
  · rw [hreports, hreports, hmessages]
  · rw [hmessages]
  · rw [hmessages]
  · calc run.summary = _ := congrArg Runner.State.summary hunlogged.symm
      _ = _ := congrArg Course.summary hcourse
      _ = run'.summary := congrArg Runner.State.summary hunlogged'
  · calc run.session.store.memory = _ :=
          congrArg (fun st => st.session.store.memory) hunlogged.symm
      _ = _ := congrArg Course.memory hcourse
      _ = run'.session.store.memory := congrArg (fun st => st.session.store.memory) hunlogged'

/-- The sink that does nothing about a message. -/
def Sink.silent : Sink Unit where
  take _ _ state := ({ taken := true }, state)

/-- A script that writes and reads, run with pages of one triple by an index
and with pages of the usual size by scanning: what the one run reports is what
the other does. -/
theorem run_eq_of_small_channel :
    let script := Script.parse "people" ("\n".intercalate
      ["INSERT (a, knows, b), (b, knows, c)", "SELECT ?x WHERE (?x, knows, ?y), (?y, knows, ?)"])
    let m : MemoryStore := { name := "people" }
    let log := Engine.standard.log Sink.silent script ⟨1⟩ (.begin { memory := m }) ()
    let log' := Engine.standard.log Sink.silent script ⟨0⟩
      (.begin { memory := m, access := .scanning }) ()
    log.reports = log'.reports
      ∧ reportText JsonLines.pieces log.messages = reportText JsonLines.pieces log'.messages
      ∧ log'.reports.map StatementReport.status
        = [.succeeded {}, .succeeded ⟨["?x"], [[⟨"a"⟩]]⟩] := by
  intro script m log log'
  have hstatus : log.reports.map StatementReport.status
      = [.succeeded {}, .succeeded ⟨["?x"], [[⟨"a"⟩]]⟩] := by decide +kernel
  have h : (Engine.standard.run Sink.silent script ⟨1⟩ (.begin { memory := m })
      ()).session.cancelled = false := by decide +kernel
  have h' : (Engine.standard.run Sink.silent script ⟨0⟩
      (.begin { memory := m, access := .scanning }) ()).session.cancelled = false := by
    decide +kernel
  obtain ⟨-, hreports, -, hjson, -⟩ := run_eq_of_channel_of_access Sink.silent script () m
    .indexed .scanning (by decide) (by decide) h h'
  exact ⟨hreports, hjson, hreports ▸ hstatus⟩

end TripleScript
