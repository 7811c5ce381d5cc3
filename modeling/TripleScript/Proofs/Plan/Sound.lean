import TripleScript.Plan.Make
import TripleScript.Proofs.Plan.JoinOrder
import TripleScript.Proofs.Query.Slots
import TripleScript.Proofs.Select.Turns
import TripleScript.Proofs.Statement.Grammar

/-!
# Plans that make sense

Answering a query relies on its plan: there has to be a first scan, the scans
have to bind every slot that a column shows, and pages have to have room for
a triple. `SelectPlan.Sound` collects these conditions. A plan that meets
them has a complete answer, the rows of all its solutions as far as they are
wanted, and it gives that answer if it is not disturbed
(`SelectPlan.Sound.run_of_calm`).

The plan of a compiled query is sound (`SelectPlan.sound_of_planned`). Where
the conditions come from is not in one place: that there is a pattern is up
to the grammar (`patterns_ne_nil_of_parse`), that patterns bind the slots to
the compiler, that no scan is lost to the planner
(`Query.plannedAs_of_plan`).
-/

namespace TripleScript

/-! ## The complete answer -/

/-- **A plan makes sense** if it can be carried out whatever the store
holds. -/
structure SelectPlan.Sound (p : SelectPlan) : Prop where
  /-- There is a first scan. -/
  steps_ne_nil : p.steps ≠ []
  /-- The scans bind the slots of a row. -/
  covers : Covers p.steps p.slotCount
  /-- A column shows a slot. -/
  projection_lt : ∀ i ∈ p.projection, i < p.slotCount
  /-- A page has room for a triple. -/
  capacity_pos : 0 < p.capacity

namespace SelectPlan

variable {p : SelectPlan}

/-- The rows of all solutions, in the order of the nested loop. -/
def allRows (p : SelectPlan) (m : MemoryStore) : List (List Node) :=
  (solutions m p.steps p.slotCount).map (readOff p.projection)

/-- **The complete answer of a plan**: of the rows of all solutions those that
are wanted. -/
def fullAnswer (p : SelectPlan) (m : MemoryStore) : Table :=
  ⟨p.columns, shape p.distinct p.limit (p.allRows m)⟩

/-- A completed row has a node for every column. -/
theorem Sound.project?_completion (hp : p.Sound) {m : MemoryStore} {row : Row}
    (hrow : row ∈ completions m p.steps (Row.empty p.slotCount)) :
    (Collector.ofPlan p).project? row = some (readOff p.projection row.nodes) := by
  have hmap := Row.map_nodes (hp.covers.isSome_node? hrow)
  have hlen : row.nodes.length = p.slotCount := by
    rw [Row.nodes, List.length_map, length_of_mem_completions hrow, Row.length_empty]
  have hproject := Collector.project?_map_some (c := .ofPlan p) row.nodes
    fun i hi => hlen ▸ hp.projection_lt i hi
  rwa [hmap] at hproject

/-- **The collector of a sound plan ends up with the complete answer.** -/
theorem Sound.outcome_eq (hp : p.Sound) (m : MemoryStore) :
    p.outcome (completions m p.steps (Row.empty p.slotCount)) (.ofPlan p)
      = .ok (p.fullAnswer m) := by
  obtain ⟨more, htake⟩ := Collector.takeAll_holding []
    fun row hrow => hp.project?_completion (m := m) hrow
  rw [outcome, Collector.ofPlan_eq_holding, htake]
  simp only [Except.map, answer, Collector.holding, fullAnswer, allRows, solutions,
    List.nil_append, List.map_map]
  rfl

/-- **A sound plan that is not disturbed gives its complete answer.** -/
theorem Sound.run_of_calm (hp : p.Sound) (watched : Bool) {s : Session} (hs : s.Calm) :
    p.run watched s = (.finished (.ok (p.fullAnswer s.store.memory)), s) := by
  rw [SelectPlan.run_of_calm p watched hs hp.steps_ne_nil hp.capacity_pos, hp.outcome_eq]

theorem Sound.execute_of_calm (hp : p.Sound) {s : Session} (hs : s.Calm) :
    (Plan.select p).execute s = (.ok (p.fullAnswer s.store.memory), s) := by
  unfold Plan.execute Plan.run
  rw [if_neg (by simp [hs.cancelled])]
  dsimp only
  rw [hp.run_of_calm false hs]

end SelectPlan

/-! ## From a compiled query to its plan -/

/-- **A plan is made for a query** and a capacity: it has the scans of the
query in some order. -/
structure Query.PlannedAs (q : Query) (capacity : ℕ) (p : SelectPlan) : Prop where
  /-- No pattern is lost. -/
  patterns : (p.steps.map ScanStep.pattern).Perm q.patterns
  /-- A row has the slots of the query. -/
  slotCount : p.slotCount = q.slots.length
  /-- The columns are those of the query. -/
  projection : p.projection = q.projection
  /-- Equal rows are given once or not. -/
  distinct : p.distinct = q.distinct
  /-- As many rows are wanted. -/
  limit : p.limit = q.limit
  /-- A capacity of none is taken for one. -/
  capacity : p.capacity = max capacity 1

variable {s s' : Session}

/-- Asking a store for estimates makes a scan of each pattern. -/
theorem map_pattern_of_estimateScans {source : ℕ} {ps : List SlotPattern}
    {scans : List ScanStep} (h : estimateScans source ps s = .ok scans s') :
    scans.map ScanStep.pattern = ps := by
  induction ps generalizing source scans s with
  | nil =>
    cases h
    rfl
  | cons p ps ih =>
    simp only [estimateScans, bind, EStateM.bind] at h
    cases hcount : Session.count p.fixed s with
    | error e s₁ =>
      rw [hcount] at h
      cases h
    | ok estimate s₁ =>
      simp only [hcount] at h
      cases hrest : estimateScans (source + 1) ps s₁ with
      | error e s₂ =>
        rw [hrest] at h
        cases h
      | ok rest s₂ =>
        rw [hrest] at h
        cases h
        rw [List.map_cons, ih hrest]

/-- The scans of some patterns on a store with what accepts each of them
counted, of which the first has place `source`. -/
def scansOn (m : MemoryStore) (source : ℕ) : List SlotPattern → List ScanStep
  | [] => []
  | p :: ps => ⟨p, source, (m.scan p.fixed).length⟩ :: scansOn m (source + 1) ps

/-- **An undisturbed store is asked for estimates and counts**, however it
does so, and stays as it was. -/
theorem estimateScans_of_calm (hs : s.Calm) (source : ℕ) (ps : List SlotPattern) :
    estimateScans source ps s = .ok (scansOn s.store.memory source ps) s := by
  induction ps generalizing source with
  | nil => rfl
  | cons p ps ih =>
    have hcount : Session.count p.fixed s = .ok (s.store.memory.scan p.fixed).length s := by
      rw [Session.count, Session.ask_of_fault_eq_nil hs.fault, MemoryStore.count_eq_length]
    rw [estimateScans]
    simp only [bind, EStateM.bind, hcount, ih]
    rfl

/-- **All that planning can do if it succeeds**: the capacity can be had, the
patterns are of one group, and the scans with their estimates are put in
order. -/
theorem Query.exists_scans_of_plan {q : Query} {capacity : ℕ} {p : SelectPlan}
    (h : q.plan capacity s = .ok p s') :
    max capacity 1 ≤ maxCapacity ∧ groupCount q.patterns q.slots.length ≤ 1
      ∧ ∃ scans, estimateScans 0 q.patterns s = .ok scans s'
        ∧ p = { steps := orderScans scans
                slotCount := q.slots.length
                columns := q.projection.map (q.slots.getD · "")
                projection := q.projection
                distinct := q.distinct
                limit := q.limit
                capacity := max capacity 1 } := by
  unfold Query.plan at h
  dsimp only at h
  split at h
  case isTrue => cases h
  case isFalse hcapacity =>
    split at h
    case isTrue => cases h
    case isFalse hgroups =>
      simp only [bind, EStateM.bind, EStateM.adaptExcept] at h
      cases hscans : estimateScans 0 q.patterns s with
      | error e s₁ =>
        rw [hscans] at h
        cases h
      | ok scans s₁ =>
        rw [hscans] at h
        cases h
        exact ⟨Nat.le_of_not_lt hcapacity, Nat.le_of_not_lt hgroups, scans, rfl, rfl⟩

/-- **Planning loses no pattern.** -/
theorem Query.plannedAs_of_plan {q : Query} {capacity : ℕ} {p : SelectPlan}
    (h : q.plan capacity s = .ok p s') : q.PlannedAs capacity p := by
  obtain ⟨-, -, scans, hscans, rfl⟩ := Query.exists_scans_of_plan h
  exact ⟨map_pattern_of_estimateScans hscans ▸ (orderScans_perm scans).map _, rfl, rfl, rfl,
    rfl, rfl⟩

/-- **An undisturbed plan loses no pattern**, and making it changes nothing. -/
theorem planned_of_plan (hs : s.Calm) {q : Query} {capacity : ℕ} {p : SelectPlan}
    (h : q.plan capacity s = .ok p s') : s' = s ∧ q.PlannedAs capacity p := by
  obtain ⟨-, -, scans, hscans, -⟩ := Query.exists_scans_of_plan h
  rw [estimateScans_of_calm hs] at hscans
  cases hscans
  exact ⟨rfl, Query.plannedAs_of_plan h⟩

/-- **The plan of a compiled query is sound.** -/
theorem SelectPlan.sound_of_planned {q : SelectStatement} {c : Query} {capacity : ℕ}
    {p : SelectPlan} (hq : q.patterns ≠ []) (hc : c.Compiles q)
    (hp : c.PlannedAs capacity p) : p.Sound where
  steps_ne_nil hsteps := by
    have hnil := hp.patterns
    rw [hsteps, List.map_nil, List.nil_perm] at hnil
    have hlen := hc.patterns.length_eq
    rw [hnil, List.length_zipIdx, List.length_nil] at hlen
    exact hq (List.length_eq_zero_iff.mp hlen)
  covers := by
    obtain ⟨hwithin, heach⟩ := hc.binds
    rw [← hp.slotCount] at hwithin heach
    constructor
    · intro step hstep
      exact hwithin _ (hp.patterns.mem_iff.mp (List.mem_map_of_mem hstep))
    · intro i hi
      obtain ⟨sp, hsp, hslot⟩ := heach i hi
      obtain ⟨step, hstep, rfl⟩ := List.mem_map.mp (hp.patterns.mem_iff.mpr hsp)
      exact ⟨step, hstep, hslot⟩
  projection_lt i hi := by
    rw [hp.projection] at hi
    rw [hp.slotCount]
    exact hc.projection_lt hi
  capacity_pos := by
    rw [hp.capacity]
    omega

/-! ## From a text to a query -/

/-- **A query that is read has a pattern**, because the grammar wants one. -/
theorem patterns_ne_nil_of_parse {text : String} {q : SelectStatement}
    (h : Statement.parse text = .ok (.select q)) : q.patterns ≠ [] := by
  obtain ⟨ls, -, hst⟩ := exists_derivedFrom_of_parse h
  cases hst with
  | select _ hq =>
    generalize hunplaced : q.unplaced = q' at hq
    cases hq with
    | select _ _ _ pats _ =>
      cases hunplaced
      exact fun hnil => pats.ne_nil (List.map_eq_nil_iff.mpr hnil)

/-! ## From a text to its plan -/

variable {text : String} {capacity : ℕ}

/-- The scans of a plan, if it is one that is carried out by scans. -/
def Plan.select? : Plan → Option SelectPlan
  | insert _ => none
  | delete _ => none
  | select p => some p

/-- Such a plan is the plan of a query. -/
theorem Plan.select?_eq_some_iff {p : Plan} {plan : SelectPlan} :
    p.select? = some plan ↔ p = select plan := by
  cases p <;> simp [select?]

/-- What is planned from a text on a store that has just been opened, with the
session behind it. -/
def planned? (text : String) (capacity : ℕ) (m : MemoryStore) (access : Access) :
    Option (Plan × Session) :=
  match Command.compile text with
  | .error _ => none
  | .ok c =>
    match c.plan capacity (.begin { memory := m, access }) with
    | .error .. => none
    | .ok p s => some (p, s)

/-- What is planned from a text is the plan of its command. -/
theorem exists_command_of_planned? {m : MemoryStore} {access : Access} {p : Plan}
    (h : planned? text capacity m access = some (p, s)) :
    ∃ c, Command.compile text = .ok c
      ∧ c.plan capacity (.begin { memory := m, access }) = .ok p s := by
  unfold planned? at h
  cases hcompile : Command.compile text with
  | error e =>
    rw [hcompile] at h
    cases h
  | ok c =>
    simp only [hcompile] at h
    cases hplan : c.plan capacity (.begin { memory := m, access }) with
    | error e s' =>
      rw [hplan] at h
      cases h
    | ok p' s' =>
      rw [hplan] at h
      cases h
      exact ⟨c, rfl, hplan⟩

/-- The command that writes a query is the compiled query. -/
theorem exists_compile_of_parse {q : SelectStatement} {c : Command}
    (hparse : Statement.parse text = .ok (.select q))
    (hcompile : Command.compile text = .ok c) :
    ∃ compiled, c = .select compiled ∧ q.compile = .ok compiled := by
  simp only [Command.compile, hparse, Statement.compile] at hcompile
  cases h : q.compile with
  | error e =>
    rw [h] at hcompile
    cases hcompile
  | ok compiled =>
    rw [h] at hcompile
    cases hcompile
    exact ⟨compiled, rfl, rfl⟩

/-- A command that is a query is written as one. -/
theorem exists_parse_of_compile {compiled : Query}
    (h : Command.compile text = .ok (.select compiled)) :
    ∃ q, Statement.parse text = .ok (.select q) := by
  unfold Command.compile at h
  cases hparse : Statement.parse text with
  | error e =>
    rw [hparse] at h
    cases h
  | ok statement =>
    rw [hparse] at h
    cases statement with
    | select q => exact ⟨q, rfl⟩
    | insert ps =>
      simp only [Statement.compile] at h
      cases hground : groundTriples .insert ps <;> rw [hground] at h <;> cases h
    | delete ps =>
      simp only [Statement.compile] at h
      cases hground : groundTriples .delete ps <;> rw [hground] at h <;> cases h

/-- The plan of a query is made of scans. -/
theorem exists_plan_of_select {compiled : Query} {p : Plan}
    (h : (Command.select compiled).plan capacity s = .ok p s') :
    ∃ plan, p = .select plan ∧ compiled.plan capacity s = .ok plan s' := by
  simp only [Command.plan, bind, EStateM.bind] at h
  cases hplan : compiled.plan capacity s with
  | error e s'' =>
    rw [hplan] at h
    cases h
  | ok plan s'' =>
    rw [hplan] at h
    cases h
    exact ⟨plan, rfl, rfl⟩

/-- A plan made of scans is that of a query. -/
theorem exists_query_of_plan {c : Command} {plan : SelectPlan}
    (h : c.plan capacity s = .ok (.select plan) s') : ∃ compiled, c = .select compiled := by
  cases c with
  | select compiled => exact ⟨compiled, rfl⟩
  | insert ts =>
    simp only [Command.plan, bind, EStateM.bind] at h
    cases hwrite : refuseReadOnly .insert s <;> rw [hwrite] at h <;> cases h
  | delete ts =>
    simp only [Command.plan, bind, EStateM.bind] at h
    cases hwrite : refuseReadOnly .delete s <;> rw [hwrite] at h <;> cases h

/-- What is planned from a text as scans is the plan of its query. -/
theorem exists_query_of_planned? {m : MemoryStore} {access : Access} {plan : SelectPlan}
    (h : ((planned? text capacity m access).bind fun r => r.1.select?) = some plan) :
    ∃ q s, Command.compile text = .ok (.select q)
      ∧ q.plan capacity (.begin { memory := m, access }) = .ok plan s := by
  obtain ⟨⟨p, s⟩, hplanned, hselect⟩ := Option.bind_eq_some_iff.mp h
  obtain ⟨c, hcompile, hplan⟩ := exists_command_of_planned? hplanned
  obtain rfl : p = .select plan := Plan.select?_eq_some_iff.mp hselect
  obtain ⟨q, rfl⟩ := exists_query_of_plan hplan
  obtain ⟨plan', heq, hplan⟩ := exists_plan_of_select hplan
  cases heq
  exact ⟨q, s, hcompile, hplan⟩

/-- **Whatever is planned from a text is sound**, also if faults have struck
while it was planned. -/
theorem SelectPlan.sound_of_compile {c : Command} {plan : SelectPlan}
    (hcompile : Command.compile text = .ok c)
    (hplan : c.plan capacity s = .ok (.select plan) s') : plan.Sound := by
  obtain ⟨compiled, rfl⟩ := exists_query_of_plan hplan
  obtain ⟨q, hparse⟩ := exists_parse_of_compile hcompile
  obtain ⟨compiled', heq, hq⟩ := exists_compile_of_parse hparse hcompile
  cases heq
  obtain ⟨plan', heq, hplan⟩ := exists_plan_of_select hplan
  cases heq
  exact sound_of_planned (patterns_ne_nil_of_parse hparse) (compiles_of_compile hq)
    (Query.plannedAs_of_plan hplan)

end TripleScript
