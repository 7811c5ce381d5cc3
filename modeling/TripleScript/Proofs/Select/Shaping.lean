import TripleScript.Proofs.Select.Truncation

/-!
# What a distinct and limited query leaves out

A query can ask for equal rows once and for no more than so many rows, and
then the join stops as soon as the collector is full, at whatever depth it is,
and the first scan is stopped too. The answer is the one that the list
functions give: of the rows of the same plan without either wish, the first of
equal ones, and of these the first so many (`answer_eq_shape`). Repetitions
do not count towards the limit (`length_shape_of_distinct`), and no order of
the moves of the two sides makes a difference.
-/

namespace TripleScript

/-- **A limit counts the rows that differ.** -/
theorem length_shape_of_distinct (n : ℕ) (rows : List (List Node)) :
    (shape true (some n) rows).length = min n rows.toFinset.card := by
  have hset : rows.eraseDups.toFinset = rows.toFinset := by
    ext row
    rw [List.mem_toFinset, List.mem_toFinset, List.mem_eraseDups]
  show (rows.eraseDups.take n).length = _
  rw [List.length_take, ← hset, List.toFinset_card_of_nodup (nodup_eraseDups rows)]

namespace SelectPlan

/-- The plan that gives every row as often as it comes. -/
def unshaped (p : SelectPlan) : SelectPlan :=
  { p with distinct := false, limit := none }

variable {p : SelectPlan}

/-- How many rows are wanted has no part in whether a plan makes sense. -/
theorem Sound.unshaped (hp : p.Sound) : p.unshaped.Sound where
  steps_ne_nil := hp.steps_ne_nil
  covers := hp.covers
  projection_lt := hp.projection_lt
  capacity_pos := hp.capacity_pos

/-- The complete answer is made of that with every row. -/
theorem fullAnswer_eq_shape_unshaped (p : SelectPlan) (m : MemoryStore) :
    p.fullAnswer m = ⟨p.columns, shape p.distinct p.limit (p.unshaped.fullAnswer m).rows⟩ :=
  rfl

end SelectPlan

/-- **Asking for equal rows once and for so many rows does what it does to a
list.** If a text writes a query and a plan is made for it on a store, then
the same plan without either wish gives all the rows, and the plan gives of
these the first of equal ones, if equal rows are to be given once, and then
the first so many, if there is a limit. It gives them when the two sides take
turns, and it gives them and nothing else whatever moves the two sides make
on the store, as long as nobody cancels the run. So the limit counts rows that
differ. -/
theorem answer_eq_shape {text : String} {q : SelectStatement} {c : Command}
    {m : MemoryStore} {access : Access} {capacity : ℕ} {p : Plan} {s : Session}
    (hparse : Statement.parse text = .ok (.select q)) (hcompile : Command.compile text = .ok c)
    (hplan : c.plan capacity (.begin { memory := m, access }) = .ok p s) :
    ∃ plan rows, p = .select plan
      ∧ (Plan.select { plan with distinct := false, limit := none }).execute s
        = (.ok ⟨plan.columns, rows⟩, s)
      ∧ (Plan.select plan).execute s
        = (.ok ⟨plan.columns, shape q.distinct q.limit rows⟩, s)
      ∧ (∀ n, q.distinct = true → q.limit = some n →
        (shape q.distinct q.limit rows).length = min n rows.toFinset.card)
      ∧ ∀ task : SelectTask, task.plan = plan → task.memory = m → ∀ table,
        (∃ moves, .cancel ∉ moves ∧ (task.after moves).answer? = some table)
          ↔ table = ⟨plan.columns, shape q.distinct q.limit rows⟩ := by
  have hcalm := Session.calm_begin m access
  obtain ⟨compiled, rfl, hcompiled⟩ := exists_compile_of_parse hparse hcompile
  obtain ⟨plan, rfl, hqplan⟩ := exists_plan_of_select hplan
  have hsound := SelectPlan.sound_of_compile hcompile hplan
  obtain ⟨rfl, hp⟩ := planned_of_plan hcalm hqplan
  have hc := compiles_of_compile hcompiled
  have hanswer : plan.fullAnswer m
      = ⟨plan.columns, shape q.distinct q.limit (plan.unshaped.fullAnswer m).rows⟩ := by
    rw [plan.fullAnswer_eq_shape_unshaped, hp.distinct, hp.limit, hc.distinct, hc.limit]
  refine ⟨plan, (plan.unshaped.fullAnswer m).rows, rfl,
    hsound.unshaped.execute_of_calm hcalm, ?_, ?_, ?_⟩
  · rw [← hanswer]
    exact hsound.execute_of_calm hcalm
  · intro n hdistinct hlimit
    rw [hdistinct, hlimit]
    exact length_shape_of_distinct n _
  · rintro task rfl hmemory table
    rw [task.exists_uncancelled_answer_iff_run hsound false hcalm hmemory.symm,
      hsound.run_of_calm false hcalm, ← hanswer]
    constructor
    · intro h
      simp only [Prod.mk.injEq, Ending.finished.injEq, Except.ok.injEq, and_true] at h
      exact h.symm
    · rintro rfl
      rfl

/-- Of four rows two are equal, and the limit of two is met by the first and
the third. -/
theorem answer_eq_shape_of_repetition :
    let text := "SELECT DISTINCT ?x WHERE (?x, knows, ?) LIMIT 2"
    let q : SelectStatement :=
      { distinct := true
        projection := .vars ["x"]
        patterns := [⟨.var "x", .node ⟨"knows"⟩, .wildcard, ⟨25, 39⟩⟩]
        limit := some 2 }
    let m : MemoryStore :=
      { name := "people"
        triples := (Indexes.insertAll ∅ [⟨⟨"a"⟩, ⟨"knows"⟩, ⟨"b"⟩⟩, ⟨⟨"a"⟩, ⟨"knows"⟩, ⟨"c"⟩⟩,
          ⟨⟨"b"⟩, ⟨"knows"⟩, ⟨"d"⟩⟩, ⟨⟨"c"⟩, ⟨"knows"⟩, ⟨"e"⟩⟩]).2 }
    ∃ c p s plan, Statement.parse text = .ok (.select q) ∧ Command.compile text = .ok c
      ∧ c.plan 1 (.begin { memory := m }) = .ok p s ∧ p = .select plan
      ∧ ∃ rows, (Plan.select { plan with distinct := false, limit := none }).execute s
          = (.ok ⟨plan.columns, rows⟩, s)
        ∧ (Plan.select plan).execute s = (.ok ⟨plan.columns, shape true (some 2) rows⟩, s)
        ∧ shape true (some 2) rows = [[⟨"a"⟩], [⟨"b"⟩]] := by
  intro text q m
  have hparse : Statement.parse text = .ok (.select q) := by decide +kernel
  have hrun : (planned? text 1 m .indexed).map
      (fun r => (r.1.execute r.2).1.toOption.map Table.rows)
        = some (some [[⟨"a"⟩], [⟨"b"⟩]]) := by
    decide +kernel
  obtain ⟨⟨p, s⟩, hplanned, htwo⟩ := Option.map_eq_some_iff.mp hrun
  obtain ⟨c, hcompile, hplan⟩ := exists_command_of_planned? hplanned
  obtain ⟨plan, rows, rfl, hall, hanswer, -⟩ := answer_eq_shape hparse hcompile hplan
  rw [hanswer] at htwo
  exact ⟨c, _, s, plan, hparse, hcompile, hplan, rfl, rows, hall, hanswer,
    Option.some.inj htwo⟩

end TripleScript
