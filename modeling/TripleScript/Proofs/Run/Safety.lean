import TripleScript.Proofs.Query.Columns
import TripleScript.Proofs.Run.Calm
import TripleScript.Proofs.Select.Bounds
import TripleScript.Proofs.Select.Trouble

/-!
# Compiled statements never go wrong

A statement that compiles may be refused when it is planned, and carrying it
out may fail because the store does or because the run is cancelled. Nothing
else happens to it: no table is too short for a look into it, no plan is found
to make no sense, and undisturbed a plan that has been made is carried out.

What this rests on has been settled phase by phase: the parser sees to a
first pattern, the compiler to slots and columns with different names, the
planner keeps the patterns in whatever order, and the join binds the slots.
`compiled_statement_safe` puts it together.
-/

namespace TripleScript

/-! ## The answer as a table -/

/-- What is wanted of some rows are some of them. -/
theorem mem_of_mem_shape {distinct : Bool} {limit : Option ℕ} {rows : List (List Node)}
    {row : List Node} (h : row ∈ shape distinct limit rows) : row ∈ rows := by
  have hkept : row ∈ kept distinct rows := by
    cases limit with
    | none => exact h
    | some n => exact List.mem_of_mem_take h
  cases distinct with
  | false => exact hkept
  | true => exact List.mem_eraseDups.mp hkept

namespace SelectPlan

/-- Every row of an answer has a node for each column. -/
theorem length_of_mem_rows {p : SelectPlan} (h : p.columns.length = p.projection.length)
    {m : MemoryStore} {row : List Node} (hrow : row ∈ (p.fullAnswer m).rows) :
    row.length = p.columns.length := by
  obtain ⟨ρ, -, rfl⟩ := List.mem_map.mp (mem_of_mem_shape hrow)
  rw [readOff, List.length_map, h]

variable {q : SelectStatement} {c : Query} {capacity : ℕ} {p : SelectPlan} {s s' : Session}

/-- The plan of a compiled query has a name for each column, and the names
differ. -/
theorem columns_of_plan (hq : q.compile = .ok c) (h : c.plan capacity s = .ok p s') :
    p.columns.length = p.projection.length ∧ p.columns.Nodup := by
  obtain ⟨-, -, scans, -, rfl⟩ := Query.exists_scans_of_plan h
  exact ⟨List.length_map _, Query.nodup_columns_of_compile hq⟩

end SelectPlan

/-! ## Carrying out a plan -/

namespace Plan

variable {p : Plan} {t : Session}

/-- Carrying out a plan that is a write. -/
theorem execute_of_ofWrite {write : SessionM SystemError ℕ}
    (hrun : p.run false t = if t.cancelled then (.finished (.error .cancelled), t)
      else Ending.ofWrite write t) :
    p.execute t = if t.cancelled then (.error .cancelled, t)
      else match write t with
        | .error e t' => (.error (.store e), t')
        | .ok _ t' => (.ok {}, t') := by
  unfold execute
  rw [hrun]
  unfold Ending.ofWrite
  cases t.cancelled with
  | true => rfl
  | false => cases write t <;> rfl

/-- A write fails because the run is cancelled or because the store does. -/
theorem error_of_ofWrite (write : SessionM SystemError ℕ) {e : ExecuteError}
    (hrun : p.run false t = if t.cancelled then (.finished (.error .cancelled), t)
      else Ending.ofWrite write t) (h : (p.execute t).1 = .error e) :
    e = .cancelled ∨ ∃ e', e = .store e' := by
  rw [execute_of_ofWrite hrun] at h
  cases hc : t.cancelled with
  | true =>
    rw [hc, if_pos rfl] at h
    cases h
    exact .inl rfl
  | false =>
    rw [hc, if_neg Bool.false_ne_true] at h
    cases hwrite : write t with
    | error e' t' =>
      rw [hwrite] at h
      cases h
      exact .inr ⟨e', rfl⟩
    | ok n t' =>
      rw [hwrite] at h
      cases h

/-- **A plan fails because the run is cancelled or because the store does**,
never because it makes no sense. -/
theorem error_of_execute (hp : ∀ plan, p = .select plan → plan.Sound) {e : ExecuteError}
    (h : (p.execute t).1 = .error e) : e = .cancelled ∨ ∃ e', e = .store e' := by
  cases p with
  | insert ts => exact error_of_ofWrite (Session.insert ts) rfl h
  | delete ts => exact error_of_ofWrite (Session.erase ts) rfl h
  | select plan =>
    rcases (hp plan rfl).execute_of_trouble t with hok | ⟨e', herror, hdue⟩
    · rw [hok] at h
      cases h
    · rw [herror] at h
      cases h
      cases hdue with
      | fault => exact .inr ⟨_, rfl⟩
      | cancelled => exact .inl rfl
      | callOff => exact .inl rfl

/-- An undisturbed write that the store takes is carried out. -/
theorem execute_write_of_calm (ht : t.Calm) {r : Request} {n : ℕ} {m : MemoryStore}
    {change : MemoryStore → Except SystemError (ℕ × MemoryStore)}
    (hrun : p.run false t = if t.cancelled then (.finished (.error .cancelled), t)
      else Ending.ofWrite (Session.write r change) t)
    (hchange : change t.store.memory = .ok (n, m)) : p.execute t = (.ok {}, t.withMemory m) := by
  rw [execute_of_ofWrite hrun, ht.cancelled, if_neg Bool.false_ne_true,
    Session.write_of_calm ht, hchange]

end Plan

/-- **Who makes a plan for a write has a store that takes writes.** -/
theorem readOnly_eq_false_of_plan {verb : Verb} {p p' : Plan} {s s' : Session}
    (h : (do refuseReadOnly verb; return p : SessionM PlanError Plan) s = .ok p' s') :
    p' = p ∧ s.store.memory.readOnly = false := by
  rw [plan_write_apply] at h
  cases hwrites : s.store.memory.readOnly with
  | true =>
    rw [hwrites] at h
    cases h
  | false =>
    rw [hwrites] at h
    cases h
    exact ⟨rfl, rfl⟩

/-- **A compiled statement never goes wrong later.** Planning a command that a
text writes, for any capacity and in any session, stays within its tables and
takes no more than there is: with every look checked it comes to the same plan
or the same error. If a plan is made, it can be explained, which looks for its
first scan. Whether it is watched or not, and whatever trouble the store
makes, carrying it out stays within its rows, and it is never found to make no
sense nor is the first scan broken off. And undisturbed it is carried out, on
any store that takes writes if the one for which it was made does: the table
has as many nodes in each row as it has columns, and the columns have
different names. -/
theorem compiled_statement_safe {text : String} {c : Command}
    (hcompile : Command.compile text = .ok c) (capacity : ℕ) :
    Checked.plan capacity c = some <$> c.plan capacity
      ∧ ∀ (s s' : Session) (p : Plan), c.plan capacity s = .ok p s' →
        (∀ store, Checked.explain store p = some (p.explain store))
        ∧ (∀ watched t, Checked.run p watched t = some (p.run watched t))
        ∧ (∀ t e, (p.execute t).1 = .error e →
          (∀ d, e ≠ .defect d) ∧ ∀ reason, e ≠ .producer reason)
        ∧ ∀ t : Session, t.Calm → t.store.memory.readOnly = s.store.memory.readOnly →
          ∃ table t', p.execute t = (.ok table, t')
            ∧ (∀ row ∈ table.rows, row.length = table.columns.length)
            ∧ table.columns.Nodup := by
  refine ⟨Checked.plan_eq hcompile capacity, fun s s' p hplan => ?_⟩
  have hsound : ∀ plan, p = .select plan → plan.Sound := by
    rintro plan rfl
    exact SelectPlan.sound_of_compile hcompile hplan
  refine ⟨fun store => ?_, Checked.run_eq hsound, fun t e h => ?_, fun t ht hwrites => ?_⟩
  · cases p with
    | insert ts => rfl
    | delete ts => rfl
    | select plan => exact Checked.explain_eq store (hsound plan rfl).steps_ne_nil
  · rcases Plan.error_of_execute hsound h with rfl | ⟨e', rfl⟩
    · exact ⟨fun _ => ExecuteError.noConfusion, fun _ => ExecuteError.noConfusion⟩
    · exact ⟨fun _ => ExecuteError.noConfusion, fun _ => ExecuteError.noConfusion⟩
  · cases c with
    | insert ts =>
      obtain ⟨rfl, hreadOnly⟩ := readOnly_eq_false_of_plan hplan
      have hchange := MemoryStore.insert_eq_ok (hwrites.trans hreadOnly) ts
      exact ⟨{}, _, Plan.execute_write_of_calm ht rfl hchange, List.forall_mem_nil _,
        List.nodup_nil⟩
    | delete ts =>
      obtain ⟨rfl, hreadOnly⟩ := readOnly_eq_false_of_plan hplan
      have hchange := MemoryStore.erase_eq_ok (hwrites.trans hreadOnly) ts
      exact ⟨{}, _, Plan.execute_write_of_calm ht rfl hchange, List.forall_mem_nil _,
        List.nodup_nil⟩
    | select compiled =>
      obtain ⟨plan, rfl, hqplan⟩ := exists_plan_of_select hplan
      obtain ⟨q, hparse⟩ := exists_parse_of_compile hcompile
      obtain ⟨compiled', heq, hq⟩ := exists_compile_of_parse hparse hcompile
      cases heq
      obtain ⟨hlength, hnodup⟩ := SelectPlan.columns_of_plan hq hqplan
      exact ⟨_, _, (hsound plan rfl).execute_of_calm ht,
        fun row hrow => SelectPlan.length_of_mem_rows hlength hrow, hnodup⟩

/-- A query for all columns, one of them a wildcard, with a capacity of none:
it is planned with every look checked, and carried out. -/
theorem compiled_statement_safe_of_wildcard :
    let text := "SELECT * WHERE (?x, knows, ?y), (?y, knows, ?)"
    let m : MemoryStore :=
      { name := "people"
        triples := (Indexes.insertAll ∅ [⟨⟨"a"⟩, ⟨"knows"⟩, ⟨"b"⟩⟩,
          ⟨⟨"b"⟩, ⟨"knows"⟩, ⟨"c"⟩⟩]).2 }
    ∃ c p s table s', Command.compile text = .ok c
      ∧ c.plan 0 (.begin { memory := m }) = .ok p s
      ∧ Checked.plan 0 c (.begin { memory := m }) = .ok (some p) s
      ∧ p.execute (.begin { memory := m }) = (.ok table, s')
      ∧ table = ⟨["?x", "?y", "?_1"], [[⟨"a"⟩, ⟨"b"⟩, ⟨"c"⟩]]⟩
      ∧ (∀ row ∈ table.rows, row.length = table.columns.length) ∧ table.columns.Nodup := by
  intro text m
  have hrun : (planned? text 0 m .indexed).map
      (fun r => (r.1.execute (.begin { memory := m })).1.toOption)
        = some (some ⟨["?x", "?y", "?_1"], [[⟨"a"⟩, ⟨"b"⟩, ⟨"c"⟩]]⟩) := by
    decide +kernel
  obtain ⟨⟨p, s⟩, hplanned, htable⟩ := Option.map_eq_some_iff.mp hrun
  obtain ⟨c, hcompile, hplan⟩ := exists_command_of_planned? hplanned
  obtain ⟨hchecked, hsafe⟩ := compiled_statement_safe hcompile 0
  obtain ⟨-, -, -, hcalm⟩ := hsafe _ _ p hplan
  obtain ⟨table, s', hexecute, hrows, hcolumns⟩ := hcalm _ (Session.calm_begin m .indexed) rfl
  rw [hexecute] at htable
  refine ⟨c, p, s, table, s', hcompile, hplan, ?_, hexecute, Option.some.inj htable, hrows,
    hcolumns⟩
  rw [hchecked, Checked.map_some_apply, hplan]

end TripleScript
