import TripleScript.Proofs.Run.Calm
import TripleScript.Proofs.Run.Composition

/-!
# Running on a store that takes no writes

A store can be frozen: it keeps its name and its triples and takes no writes
(`MemoryStore.frozen`). On such a store a run leaves everything as it is, and
apart from the writes, each of which is refused, nobody can tell it from a
store with the same triples that may be written to (`run_on_frozen`).

Three things come together. What is read of a store goes by its triples
(`Query.statusOn_congr`), and neither its estimates nor the order of its rows
by anything else. Of the three ways that a statement can take on a frozen
store – it is malformed, it is a write, it is a query – none changes the
session (`Engine.carryOut_frozen_session`), so every statement of a run meets
the session that the first one met (`Engine.passage_of_rests`). And a run that
is not cancelled might as well have had a sink that cannot cancel it
(`Engine.run_hushed`), which makes it the passage of its statements.
-/

namespace TripleScript

variable {σ : Type}

/-! ## Reading goes by the triples -/

/-- **The store, frozen**: it keeps its name and its triples, and takes no
writes. -/
def MemoryStore.frozen (m : MemoryStore) : MemoryStore :=
  { m with readOnly := true }

/-- The store, open to writes. -/
def MemoryStore.writable (m : MemoryStore) : MemoryStore :=
  { m with readOnly := false }

section Triples

variable {m m' : MemoryStore} (h : m'.triples = m.triples)

include h

theorem MemoryStore.scan_congr : m'.scan = m.scan := by
  funext l
  unfold scan
  rw [h]

theorem scansOn_congr (source : ℕ) (ps : List SlotPattern) :
    scansOn m' source ps = scansOn m source ps := by
  induction ps generalizing source with
  | nil => rfl
  | cons p ps ih => rw [scansOn, scansOn, MemoryStore.scan_congr h, ih]

theorem completions_congr (steps : List ScanStep) (row : Row) :
    completions m' steps row = completions m steps row := by
  induction steps generalizing row with
  | nil => rfl
  | cons step steps ih => rw [completions, completions, MemoryStore.scan_congr h, funext ih]

/-- Stores with the same triples get the same plans, estimates included. -/
theorem Query.planOn_congr (q : Query) (capacity : ℕ) :
    q.planOn m' capacity = q.planOn m capacity := by
  unfold planOn
  rw [scansOn_congr h]

/-- A plan gives the same rows in the same order on them. -/
theorem SelectPlan.fullAnswer_congr (p : SelectPlan) : p.fullAnswer m' = p.fullAnswer m := by
  unfold fullAnswer allRows solutions
  rw [completions_congr h]

end Triples

/-- **What comes of a query** on what a store holds, with a channel of any
size. -/
def Query.statusOn (q : Query) (channel : ChannelSize) (m : MemoryStore) : Status :=
  if channel.capacity > maxCapacity then
    .failed ⟨.plan, (PlanError.channelCapacity channel.capacity maxCapacity).message⟩
  else Status.ofResult ((Command.select q).carriedOut m).1

/-- **What comes of a query goes by the triples**, be it a table with its rows
in order or a failure with its message. -/
theorem Query.statusOn_congr {m m' : MemoryStore} (h : m'.triples = m.triples) (q : Query)
    (channel : ChannelSize) : q.statusOn channel m' = q.statusOn channel m := by
  have hresult : ((Command.select q).carriedOut m').1 = ((Command.select q).carriedOut m).1 := by
    unfold Command.carriedOut
    dsimp only
    rw [q.planOn_congr h, SelectPlan.fullAnswer_congr h]
    split <;> rfl
  unfold statusOn
  rw [hresult]

/-! ## A statement on a frozen store -/

namespace Engine

variable {text : String} {channel : ChannelSize} {s : Session}

/-- A malformed statement fails when it is read. -/
theorem carryOut_of_malformed {e : CompileError} (hcompile : Command.compile text = .error e) :
    standard.carryOut text channel s = (.failed ⟨.compile, e.message⟩, s) := by
  rw [carryOut_standard, hcompile]

/-- **A write is refused** by a store that takes none, when it is planned. -/
theorem carryOut_of_write (hm : s.store.memory.readOnly = true) {c : Command}
    (hcompile : Command.compile text = .ok c) (hwrite : c.verb ≠ .select) :
    standard.carryOut text channel s
      = (.failed ⟨.plan, (PlanError.readOnlyStore s.store.memory.name c.verb).message⟩, s) := by
  rw [carryOut_standard, hcompile]
  dsimp only
  cases c with
  | insert ts => rw [Command.plan, plan_write_apply, if_pos hm]; rfl
  | delete ts => rw [Command.plan, plan_write_apply, if_pos hm]; rfl
  | select q => exact absurd rfl hwrite

/-- **A query that is not disturbed** leaves the session, whatever the size of
the channel. -/
theorem carryOut_of_read (hs : s.Calm) {q : Query}
    (hcompile : Command.compile text = .ok (.select q)) :
    standard.carryOut text channel s = (q.statusOn channel s.store.memory, s) := by
  have hpos : max channel.capacity 1 = channel.capacity := by
    unfold ChannelSize.capacity ChannelSize.usual
    split <;> omega
  rw [carryOut_standard, hcompile]
  show carryOutCommand (.select q) channel.capacity s = _
  unfold Query.statusOn
  split
  case isTrue hcapacity =>
    have hplan : (Command.select q).plan channel.capacity s
        = .error (.channelCapacity channel.capacity maxCapacity) s := by
      simp only [Command.plan, Query.plan, bind, EStateM.bind, hpos, if_pos hcapacity]
      rfl
    rw [carryOutCommand, hplan]
  case isFalse hcapacity =>
    have hresult := carryOutCommand_of_calm hs hcompile
      (hpos.le.trans (Nat.le_of_not_lt hcapacity))
    rw [hresult]
    unfold Command.carriedOut
    dsimp only
    split <;> rfl

/-- **No statement changes the session of a frozen store.** -/
theorem carryOut_frozen_session (hs : s.Calm) (hm : s.store.memory.readOnly = true)
    (text : String) : (standard.carryOut text channel s).2 = s := by
  cases hcompile : Command.compile text with
  | error e => rw [carryOut_of_malformed hcompile]
  | ok c =>
    by_cases hverb : c.verb = .select
    · cases c with
      | select q => rw [carryOut_of_read hs hcompile]
      | _ => cases hverb
    · rw [carryOut_of_write hm hcompile hverb]

/-- **A statement that is no write comes to the same** on two undisturbed
stores with the same triples. -/
theorem carryOut_congr {s' : Session} (hs : s.Calm) (hs' : s'.Calm)
    (htriples : s'.store.memory.triples = s.store.memory.triples)
    (hread : ∀ c, Command.compile text = .ok c → c.verb = .select) :
    (standard.carryOut text channel s').1 = (standard.carryOut text channel s).1 := by
  cases hcompile : Command.compile text with
  | error e => rw [carryOut_of_malformed hcompile, carryOut_of_malformed hcompile]
  | ok c =>
    have hverb := hread c hcompile
    cases c with
    | select q =>
      rw [carryOut_of_read hs hcompile, carryOut_of_read hs' hcompile]
      exact q.statusOn_congr htriples channel
    | _ => cases hverb

/-! ## A run that leaves its session -/

variable {e : Engine}

/-- **Statements that leave the session** are all carried out on it. -/
theorem passage_of_rests (hrests : ∀ text, (e.carryOut text channel s).2 = s) (total : ℕ)
    (xs : List ScriptStatement) :
    let passed := e.passage channel total xs s
    passed.2 = s ∧ (∀ entry ∈ passed.1, entry.2 = s)
      ∧ passed.1.reports
        = xs.map fun x => ⟨x.position, total, x.text, (e.carryOut x.text channel s).1⟩ := by
  induction xs with
  | nil => exact ⟨rfl, nofun, rfl⟩
  | cons x xs ih =>
    intro passed
    obtain ⟨hend, hseen, hreports⟩ := ih
    have hpassed : passed = ((.started x, s)
        :: (.recorded ⟨x.position, total, x.text, (e.carryOut x.text channel s).1⟩, s)
        :: (e.passage channel total xs s).1, (e.passage channel total xs s).2) := by
      show e.passage channel total (x :: xs) s = _
      rw [passage, hrests x.text]
    rw [hpassed]
    refine ⟨hend, ?_, congrArg (List.cons _) hreports⟩
    rintro entry (_ | ⟨_, _ | ⟨_, hentry⟩⟩)
    · rfl
    · rfl
    · exact hseen entry hentry

theorem reaches_of_rests (hrests : ∀ text, (e.carryOut text channel s).2 = s)
    (hs : s.cancelled = false) (xs : List ScriptStatement) : e.Reaches channel xs s := by
  induction xs with
  | nil => trivial
  | cons x xs ih => exact ⟨hs, (hrests x.text).symm ▸ ih⟩

end Engine

/-! ## A run that is not cancelled -/

/-- The sink that does as another does and never cancels. -/
def Sink.hushed (sink : Sink σ) : Sink σ where
  take m s state := ({ (sink.take m s state).1 with cancels := false }, (sink.take m s state).2)

theorem Sink.quiet_hushed (sink : Sink σ) : sink.hushed.Quiet := fun _ _ _ => rfl

theorem Sink.logged_hushed (sink : Sink σ) : sink.hushed.logged = sink.logged.hushed := rfl

namespace Runner

variable {sink : Sink σ} {channel : ChannelSize} {total : ℕ}

/-- A message that does not cancel a run might have gone to the hushed sink. -/
theorem State.tell_hushed {m : Message} {st : State σ}
    (h : (st.tell sink m).session.cancelled = false) : st.tell sink.hushed m = st.tell sink m := by
  unfold tell at h ⊢
  unfold Sink.hushed
  dsimp only at h ⊢
  split at h
  case isTrue => cases h
  case isFalse hcancels => rw [if_neg hcancels, if_neg Bool.false_ne_true]

/-- So might those about a statement. -/
theorem step_hushed {st : State σ} {x : ScriptStatement}
    (h : (step .standard sink channel total st x).session.cancelled = false) :
    step .standard sink.hushed channel total st x = step .standard sink channel total st x := by
  unfold step at h ⊢
  split at h
  case isTrue hstop =>
    rw [if_pos hstop, if_pos hstop]
    exact State.tell_hushed h
  case isFalse hgoes =>
    rw [if_neg hgoes, if_neg hgoes]
    dsimp only at h ⊢
    have hcarried := State.cancelled_eq_false_of_tell h
    have hstarted : (st.tell sink (.started x)).session.cancelled = false := by
      rw [← Bool.not_eq_true] at hcarried ⊢
      exact mt (Engine.cancelled_carryOut x.text channel) hcarried
    rw [State.tell_hushed hstarted]
    exact State.tell_hushed h

/-- So might those about all statements. -/
theorem foldl_hushed {xs : List ScriptStatement} {st : State σ}
    (h : (xs.foldl (step .standard sink channel total) st).session.cancelled = false) :
    xs.foldl (step .standard sink.hushed channel total) st
      = xs.foldl (step .standard sink channel total) st := by
  induction xs generalizing st with
  | nil => rfl
  | cons x xs ih =>
    rw [List.foldl_cons, List.foldl_cons, step_hushed (cancelled_eq_false_of_foldl h)]
    exact ih h

end Runner

namespace Engine

variable {sink : Sink σ} {script : Script} {channel : ChannelSize} {s : Session} {state : σ}

/-- **A run that is not cancelled might have had a sink that cannot cancel
it.** -/
theorem run_hushed (h : (standard.run sink script channel s state).session.cancelled = false) :
    standard.run sink.hushed script channel s state = standard.run sink script channel s state := by
  unfold run at h ⊢
  dsimp only at h ⊢
  have hfold := Runner.State.cancelled_eq_false_of_tell h
  have hopened := Runner.cancelled_eq_false_of_foldl hfold
  rw [Runner.State.tell_hushed hopened, Runner.foldl_hushed hfold, Runner.State.tell_hushed h]

theorem log_hushed (h : (standard.run sink script channel s state).session.cancelled = false) :
    standard.log sink.hushed script channel s state = standard.log sink script channel s state := by
  have hlogged : (standard.run sink.logged script channel s (state, [])).session.cancelled
      = false := by
    rw [← unlogged_run] at h
    exact h
  rw [log, Sink.logged_hushed, run_hushed hlogged, log]

/-- A run whose sink does not cancel and whose statements leave the session
leaves it. -/
theorem session_of_rests (state : σ) (hsink : sink.Quiet) (hs : s.cancelled = false)
    (hrests : ∀ text, (standard.carryOut text channel s).2 = s) :
    (standard.run sink script channel s state).session = s := by
  have hreaches := reaches_of_rests hrests hs script.statements
  exact (log_of_reaches state hsink hreaches).2.trans
    (passage_of_rests hrests script.size script.statements).1

/-- **A run that is not cancelled, and whose statements leave the session**: it
sees the session at every message and in the end, and reports of each statement
what comes of it on this session. -/
theorem run_of_rests (hs : s.cancelled = false)
    (hrests : ∀ text, (standard.carryOut text channel s).2 = s)
    (h : (standard.run sink script channel s state).session.cancelled = false) :
    (standard.run sink script channel s state).session = s
      ∧ (∀ entry ∈ standard.log sink script channel s state, entry.2 = s)
      ∧ (standard.log sink script channel s state).reports
        = script.statements.map fun x =>
          ⟨x.position, script.size, x.text, (standard.carryOut x.text channel s).1⟩ := by
  have hreaches := reaches_of_rests hrests hs script.statements
  have hsession : (standard.run sink.hushed script channel s state).session = s :=
    session_of_rests state sink.quiet_hushed hs hrests
  obtain ⟨⟨summary, hlog⟩, -⟩ := log_of_reaches state sink.quiet_hushed hreaches
  have hreports := reports_of_reaches state sink.quiet_hushed hreaches
  obtain ⟨hend, hseen, hpassed⟩ := passage_of_rests hrests script.size script.statements
  rw [run_hushed h] at hsession
  rw [log_hushed h] at hlog hreports
  refine ⟨hsession, fun entry hentry => ?_, hreports.trans hpassed⟩
  rw [hlog, List.mem_cons, List.mem_append, List.mem_singleton] at hentry
  rcases hentry with rfl | hentry | rfl
  · rfl
  · exact hseen entry hentry
  · exact hend

/-- **A script of one statement** reports what comes of it, if the run is not
cancelled. -/
theorem reports_of_single {x : ScriptStatement} (hscript : script.statements = [x])
    (hs : s.cancelled = false)
    (h : (standard.run sink script channel s state).session.cancelled = false) :
    (standard.log sink script channel s state).reports
      = [⟨x.position, 1, x.text, (standard.carryOut x.text channel s).1⟩] := by
  have hreaches : standard.Reaches channel script.statements s := by
    rw [hscript]
    exact ⟨hs, trivial⟩
  have hreports := reports_of_reaches state sink.quiet_hushed hreaches
  rw [log_hushed h, Script.size, hscript] at hreports
  exact hreports

end Engine

/-! ## A script on a frozen store -/

/-- **What a run on a frozen store reports of a statement**, as it must be. -/
structure StatementReport.OfFrozen (channel : ChannelSize) (m : MemoryStore)
    (r : StatementReport) : Prop where
  /-- If it does not compile, it says why. -/
  malformed : ∀ e, Command.compile r.text = .error e → r.status = .failed ⟨.compile, e.message⟩
  /-- If it is a write, it is refused when it is planned. -/
  write : ∀ c, Command.compile r.text = .ok c → c.verb ≠ .select →
    r.status = .failed ⟨.plan, (PlanError.readOnlyStore m.name c.verb).message⟩
  /-- If it is no write, it is what is reported of the statement as a script of
  its own on a store of this name, with these triples, that can be written to. -/
  read : (∀ c, Command.compile r.text = .ok c → c.verb = .select) →
    ∀ (σ : Type) (sink : Sink σ) (source : String) (access : Access) (state : σ),
      let s := Session.begin { memory := m.writable, access }
      let script := Script.parse source r.text
      (Engine.standard.run sink script channel s state).session.cancelled = false →
        (Engine.standard.log sink script channel s state).reports = [⟨1, 1, r.text, r.status⟩]

/-- **A frozen store stays as it is, and its queries are answered as if it were
not frozen.** However a script is run on it, with whatever sink and channel,
unless it is cancelled: at every message the store is the one at the beginning,
and so it is in the end. Each statement is reported, in order. If it is
malformed it fails as it is compiled, and if it is a write it fails as it is
planned. Otherwise what is reported of it is just what is reported if it is
run alone on a store of the same name, with the same triples, that can be
written to: its table with the rows in the same order, or its failure with the
same message. -/
theorem run_on_frozen (sink : Sink σ) (source text : String) (channel : ChannelSize)
    (m : MemoryStore) (access : Access) (state : σ)
    (h : (Engine.standard.run sink (Script.parse source text) channel
      (.begin { memory := m.frozen, access }) state).session.cancelled = false) :
    let script := Script.parse source text
    let s := Session.begin { memory := m.frozen, access }
    let log := Engine.standard.log sink script channel s state
    (∀ entry ∈ log, entry.2.store.memory = m.frozen)
      ∧ (Engine.standard.run sink script channel s state).session.store.memory = m.frozen
      ∧ log.reports.map (fun r => (r.position, r.total, r.text))
        = script.statements.map (fun x => (x.position, script.size, x.text))
      ∧ ∀ r ∈ log.reports, r.OfFrozen channel m := by
  intro script s log
  have hs : s.Calm := Session.calm_begin m.frozen access
  obtain ⟨hend, hseen, hreports⟩ :=
    Engine.run_of_rests hs.cancelled (Engine.carryOut_frozen_session hs rfl) h
  refine ⟨fun entry hentry => ?_, ?_, ?_, fun r hr => ?_⟩
  · rw [hseen entry hentry]
    rfl
  · rw [hend]
    rfl
  · show (RunLog.reports (Engine.standard.log sink script channel s state)).map _ = _
    rw [hreports, List.map_map]
    rfl
  · rw [hreports] at hr
    obtain ⟨x, hx, rfl⟩ := List.mem_map.mp hr
    refine ⟨fun e hcompile => ?_, fun c hcompile hwrite => ?_, ?_⟩
    · exact congrArg Prod.fst (Engine.carryOut_of_malformed hcompile)
    · exact congrArg Prod.fst (Engine.carryOut_of_write (s := s) rfl hcompile hwrite)
    · intro hread σ' sink' source' access' state' s' script' h'
      have hs' : s'.Calm := Session.calm_begin m.writable access'
      rw [Engine.reports_of_single (Script.statements_parse_text hx source') hs'.cancelled h',
        Engine.carryOut_congr hs hs' rfl hread]

/-- A frozen store of two triples and a script that writes to it twice, has a
malformed line in between, and asks twice. The write that would have added a
third triple is refused, so the second query finds what the first one does,
and the same as it would by itself on the store that takes writes. -/
theorem run_on_frozen_of_people :
    let m : MemoryStore :=
      { name := "people"
        triples := (Indexes.insertAll ∅ [⟨⟨"a"⟩, ⟨"knows"⟩, ⟨"b"⟩⟩,
          ⟨⟨"c"⟩, ⟨"knows"⟩, ⟨"b"⟩⟩]).2 }
    let query := "SELECT ?x WHERE (?x, knows, b)"
    let script := Script.parse "r" ("\n".intercalate [query, "INSERT (d, knows, b)", "INSERT",
      "DELETE (a, knows, b)", query])
    let log := Engine.standard.log Sink.silent script ⟨1⟩ (.begin { memory := m.frozen }) ()
    let alone := Engine.standard.log Sink.silent (Script.parse "q" query) ⟨1⟩
      (.begin { memory := m.writable }) ()
    let people := Status.succeeded ⟨["?x"], [[⟨"a"⟩], [⟨"c"⟩]]⟩
    log.reports.map (fun r => (r.text, r.status)) = [(query, people),
        ("INSERT (d, knows, b)",
          .failed ⟨.plan, "store 'people' is read-only; cannot plan INSERT"⟩),
        ("INSERT",
          .failed ⟨.compile, "syntax error at column 7: expected '(', found end of statement"⟩),
        ("DELETE (a, knows, b)",
          .failed ⟨.plan, "store 'people' is read-only; cannot plan DELETE"⟩),
        (query, people)]
      ∧ (∀ entry ∈ log, entry.2.store.memory = m.frozen)
      ∧ alone.reports = [⟨1, 1, query, people⟩] := by
  intro m query script log alone people
  have hreports : log.reports.map (fun r => (r.text, r.status)) = [(query, people),
      ("INSERT (d, knows, b)",
        .failed ⟨.plan, "store 'people' is read-only; cannot plan INSERT"⟩),
      ("INSERT",
        .failed ⟨.compile, "syntax error at column 7: expected '(', found end of statement"⟩),
      ("DELETE (a, knows, b)",
        .failed ⟨.plan, "store 'people' is read-only; cannot plan DELETE"⟩),
      (query, people)] := by
    decide +kernel
  have hverb : (Command.compile query).map Command.verb = .ok .select := by decide +kernel
  have h : (Engine.standard.run Sink.silent script ⟨1⟩ (.begin { memory := m.frozen })
      ()).session.cancelled = false := by
    rw [Engine.session_of_rests () Sink.quiet_silent rfl (Engine.carryOut_frozen_session
      (Session.calm_begin m.frozen .indexed) rfl)]
    rfl
  have halone : (Engine.standard.run Sink.silent (Script.parse "q" query) ⟨1⟩
      (.begin { memory := m.writable }) ()).session.cancelled = false := by
    decide +kernel
  obtain ⟨hseen, -, -, hrecords⟩ := run_on_frozen Sink.silent "r" _ ⟨1⟩ m .indexed () h
  have hlast : (query, people) ∈ log.reports.map (fun r => (r.text, r.status)) := by
    rw [hreports]
    exact List.mem_cons_self
  obtain ⟨r, hr, hrecord⟩ := List.mem_map.mp hlast
  obtain ⟨htext, hstatus⟩ := Prod.mk.inj hrecord
  have hread := (hrecords r hr).read
  rw [htext, hstatus] at hread
  refine ⟨hreports, hseen, hread (fun c hcompile => ?_) Unit Sink.silent "q" .indexed () halone⟩
  rw [hcompile] at hverb
  exact Except.ok.inj hverb

end TripleScript
