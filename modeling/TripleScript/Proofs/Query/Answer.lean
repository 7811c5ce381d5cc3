import TripleScript.Proofs.Plan.Sound

/-!
# A query is answered by its solutions

This puts the way from the text of a query to its answer together: slots
stand for unknowns, the plan has the scans of the patterns in some order, the
nested loop finds each solution of the patterns once, and an undisturbed run
is the nested loop. So the answer has one row for each solution of the query
(`select_answers_solutions`), whatever order the planner has chosen and
however many triples are handed on at a time.
-/

namespace TripleScript

open SelectStatement in
/-- **The solutions of a plan are those of its query.** -/
theorem SelectPlan.exists_solutions {q : SelectStatement} {c : Query} {capacity : ℕ}
    {p : SelectPlan} (hq : q.patterns ≠ []) (hc : c.Compiles q) (hp : c.PlannedAs capacity p)
    (m : MemoryStore) :
    ∃ found : Finset q.Assignment, (∀ σ, σ ∈ found ↔ q.Holds m.triples.contents σ)
      ∧ (p.allRows m : Multiset (List Node)) = found.val.map Assignment.row := by
  have hsound := sound_of_planned hq hc hp
  have hslots : p.slotCount = q.unknowns.length := hp.slotCount.trans hc.slots
  have hmem : ∀ ρ, ρ ∈ solutions m p.steps p.slotCount
      ↔ ρ.length = q.unknowns.length ∧ q.Holds m.triples.contents (Assignment.ofNodes q ρ) := by
    intro ρ
    rw [hsound.covers.mem_solutions, hslots, ← hc.forall_under_iff]
    refine and_congr_right fun _ => ?_
    have hperm : (∀ sp ∈ p.steps.map ScanStep.pattern, sp.under ρ ∈ m.triples.contents)
        ↔ ∀ sp ∈ c.patterns, sp.under ρ ∈ m.triples.contents := by
      simp only [hp.patterns.mem_iff]
    rw [← hperm, List.forall_mem_map]
    simp only [Indexes.mem_contents]
  have hnodup : ((solutions m p.steps p.slotCount).map (Assignment.ofNodes q)).Nodup := by
    refine List.Nodup.map_on (fun ρ hρ ρ' hρ' heq => ?_) (hsound.covers.nodup_solutions m)
    rw [← Assignment.nodes_ofNodes ((hmem ρ).mp hρ).1, heq,
      Assignment.nodes_ofNodes ((hmem ρ').mp hρ').1]
  refine ⟨⟨↑((solutions m p.steps p.slotCount).map (Assignment.ofNodes q)), hnodup⟩,
    fun σ => ?_, ?_⟩
  · show σ ∈ (solutions m p.steps p.slotCount).map (Assignment.ofNodes q) ↔ _
    rw [List.mem_map]
    constructor
    · rintro ⟨ρ, hρ, rfl⟩
      exact ((hmem ρ).mp hρ).2
    · intro hσ
      refine ⟨σ.nodes, (hmem _).mpr ⟨σ.length_nodes, ?_⟩, Assignment.ofNodes_nodes σ⟩
      rwa [Assignment.ofNodes_nodes]
  · rw [Multiset.map_coe, List.map_map]
    refine congrArg _ (List.map_congr_left fun ρ _ => ?_)
    rw [hp.projection, hc.readOff_eq_row]
    rfl

/-- **A query is answered by its solutions.** If a text writes a query that
gives equal rows as often as they come and is not limited, and a plan is made
for it on a store, then carrying the plan out succeeds and leaves the store
alone, and the answer has one row for each solution of the query for the
triples of the store: the row of that solution. -/
theorem select_answers_solutions {text : String} {q : SelectStatement} {c : Command}
    {m : MemoryStore} {access : Access} {capacity : ℕ} {p : Plan} {s : Session}
    (hparse : Statement.parse text = .ok (.select q)) (hdistinct : q.distinct = false)
    (hlimit : q.limit = none) (hcompile : Command.compile text = .ok c)
    (hplan : c.plan capacity (.begin { memory := m, access }) = .ok p s) :
    ∃ table : Table, p.execute s = (.ok table, s)
      ∧ ∃ found : Finset q.Assignment, (∀ σ, σ ∈ found ↔ q.Holds m.triples.contents σ)
        ∧ (table.rows : Multiset (List Node))
          = found.val.map SelectStatement.Assignment.row := by
  have hcalm := Session.calm_begin m access
  have hne := patterns_ne_nil_of_parse hparse
  obtain ⟨compiled, rfl, hcompiled⟩ := exists_compile_of_parse hparse hcompile
  obtain ⟨plan, rfl, hqplan⟩ := exists_plan_of_select hplan
  obtain ⟨rfl, hp⟩ := planned_of_plan hcalm hqplan
  have hc := compiles_of_compile hcompiled
  have hsound := SelectPlan.sound_of_planned hne hc hp
  obtain ⟨found, hfound, hrows⟩ := SelectPlan.exists_solutions hne hc hp m
  refine ⟨plan.fullAnswer m, hsound.execute_of_calm hcalm, found, hfound, ?_⟩
  rw [← hrows, SelectPlan.fullAnswer, hp.distinct, hp.limit, hc.distinct, hc.limit, hdistinct,
    hlimit]
  rfl

/-- Of two solutions that differ in a wildcard only, both have a row: on this
store, a condition without unknowns holds, a variable that occurs twice agrees
with itself once, and the wildcard can be filled in two ways. -/
theorem select_answers_solutions_of_wildcard :
    let text := "SELECT ?x WHERE (?x, knows, ?), (?x, likes, ?x), (a, knows, b)"
    let q : SelectStatement :=
      { distinct := false
        projection := .vars ["x"]
        patterns := [⟨.var "x", .node ⟨"knows"⟩, .wildcard, ⟨16, 30⟩⟩,
          ⟨.var "x", .node ⟨"likes"⟩, .var "x", ⟨32, 47⟩⟩,
          ⟨.node ⟨"a"⟩, .node ⟨"knows"⟩, .node ⟨"b"⟩, ⟨49, 62⟩⟩]
        limit := none }
    let m : MemoryStore :=
      { name := "people"
        triples := (Indexes.insertAll ∅ [⟨⟨"a"⟩, ⟨"knows"⟩, ⟨"b"⟩⟩, ⟨⟨"a"⟩, ⟨"knows"⟩, ⟨"c"⟩⟩,
          ⟨⟨"a"⟩, ⟨"likes"⟩, ⟨"a"⟩⟩, ⟨⟨"b"⟩, ⟨"likes"⟩, ⟨"a"⟩⟩]).2 }
    ∃ c p s, Command.compile text = .ok c ∧ c.plan 1 (.begin { memory := m }) = .ok p s
      ∧ ∃ table : Table, p.execute s = (.ok table, s) ∧ table.rows = [[⟨"a"⟩], [⟨"a"⟩]]
      ∧ ∃ found : Finset q.Assignment, (∀ σ, σ ∈ found ↔ q.Holds m.triples.contents σ)
        ∧ (table.rows : Multiset (List Node))
          = found.val.map SelectStatement.Assignment.row := by
  intro text q m
  have hparse : Statement.parse text = .ok (.select q) := by decide +kernel
  have hrun : (planned? text 1 m .indexed).map
      (fun r => (r.1.execute r.2).1.toOption.map Table.rows)
        = some (some [[⟨"a"⟩], [⟨"a"⟩]]) := by
    decide +kernel
  obtain ⟨⟨p, s⟩, hplanned, hrows⟩ := Option.map_eq_some_iff.mp hrun
  obtain ⟨c, hcompile, hplan⟩ := exists_command_of_planned? hplanned
  obtain ⟨table, htable, found, hfound⟩ :=
    select_answers_solutions hparse rfl rfl hcompile hplan
  rw [htable] at hrows
  exact ⟨c, p, s, hcompile, hplan, table, htable, Option.some.inj hrows, found, hfound⟩

end TripleScript
