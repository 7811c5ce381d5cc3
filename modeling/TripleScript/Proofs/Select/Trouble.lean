import TripleScript.Proofs.Select.Returning
import TripleScript.Proofs.Select.Truncation

/-!
# What trouble costs an answer

A store can fail at any scan and at any page of a query, and the run can be
cancelled while it is answered, with rows in the collector already.

When the two sides take turns, as in `SelectPlan.run`, there is the complete answer in
every case or none. What there is instead is due to the trouble: the error of a fault
that was in wait for a scan or a page, or the notice that the run has been cancelled
(`answer_right_or_due_to_trouble`).

The two sides need not take turns. In any order of their moves a failure still costs
the answer and never a row: the first scan that has failed closes the channel as one
does that has come to its end, but its failure counts before the rows. A page that
cancels the run is another matter. The scan sees that it has been stopped, and closes
the channel too; if the join has just looked at the run and not yet into the channel,
then it takes the rows so far for all there are
(`answer_right_unless_called_off_between_looks`), and it does so for a planned query
(`answer_truncated_of_page_that_cancels`).
-/

namespace TripleScript

/-! ## Taking turns -/

namespace SelectPlan

/-- **A sound plan gives its complete answer or fails for a reason.** -/
theorem Sound.run_of_trouble {p : SelectPlan} (hp : p.Sound) (watched : Bool) (s : Session) :
    (p.run watched s).1.RightOrDueTo s (.ok (p.fullAnswer s.store.memory)) := by
  rw [← hp.outcome_eq]
  exact (p.run_of_trouble watched s hp.steps_ne_nil hp.capacity_pos).2

/-- **Carrying out a sound plan** gives its complete answer or fails for a
reason. -/
theorem Sound.execute_of_trouble {p : SelectPlan} (hp : p.Sound) (s : Session) :
    ((Plan.select p).execute s).1 = .ok (p.fullAnswer s.store.memory)
      ∨ ∃ e, ((Plan.select p).execute s).1 = .error e ∧ e.DueTo s := by
  have hrun := hp.run_of_trouble false s
  unfold Plan.execute Plan.run
  cases hc : s.cancelled with
  | true => exact .inr ⟨.cancelled, rfl, .cancelled hc⟩
  | false =>
    rw [if_neg Bool.false_ne_true]
    dsimp only
    revert hrun
    rcases p.run false s with ⟨⟨e | table⟩ | _, s'⟩
    · exact fun hrun => .inr ⟨e, rfl, Or.resolve_left hrun (by simp)⟩
    · exact fun hrun => .inl (Eq.symm hrun)
    · exact fun hrun => .inr ⟨.cancelled, rfl, hrun⟩

/-- Carrying out a plan made of scans leaves the store alone. -/
theorem sameStore_execute (p : SelectPlan) (s : Session) :
    s.SameStore ((Plan.select p).execute s).2 := by
  have hsame := p.sameStore_run false s
  unfold Plan.execute Plan.run
  cases s.cancelled with
  | true => exact .refl s
  | false =>
    rw [if_neg Bool.false_ne_true]
    dsimp only
    revert hsame
    rcases p.run false s with ⟨⟨result⟩ | _, s'⟩ <;> exact id

end SelectPlan

/-- **Trouble never spoils the answer of two sides that take turns.** If a query is
planned from a text, whatever happens while it is planned, then on every store
that has just been opened it has an answer, and carried out in any session with
what that store holds – with any faults in wait and cancelled or not – it gives
this very answer or fails. It fails with the error of a fault that was in wait for a
scan or a page, or because the run was cancelled or was called off by such a
fault. In any case the store holds what it held before. -/
theorem answer_right_or_due_to_trouble {text : String} {c : Command} {capacity : ℕ}
    {s s' : Session} {plan : SelectPlan} (hcompile : Command.compile text = .ok c)
    (hplan : c.plan capacity s = .ok (.select plan) s') (m : MemoryStore) (access : Access) :
    ∃ table, (Plan.select plan).execute (.begin { memory := m, access })
        = (.ok table, .begin { memory := m, access })
      ∧ ∀ t : Session, t.store.memory = m →
        (((Plan.select plan).execute t).1 = .ok table
          ∨ ∃ e, ((Plan.select plan).execute t).1 = .error e ∧ e.DueTo t)
        ∧ ((Plan.select plan).execute t).2.store.memory = m := by
  have hsound := SelectPlan.sound_of_compile hcompile hplan
  refine ⟨plan.fullAnswer m, hsound.execute_of_calm (Session.calm_begin m access), ?_⟩
  rintro t rfl
  exact ⟨hsound.execute_of_trouble t, (plan.sameStore_execute t).memory⟩

/-! ## In any order of the moves -/

/-- **Trouble spoils an answer only between two looks of the join.** If a query is
planned from a text, whatever happens while it is planned, then on a store that has
just been opened it has an answer. With any faults in wait for its pages and scans it
returns, if both of its sides are let move again and again, and whatever the order of
the moves is, the store holds what it held before. An error is that of a fault, or it
says that the run has been cancelled, by a fault or by somebody. An answer is the one
without faults – or the run was called off after the join had looked at it for the last
time and before the join found the channel closed, by a page or by somebody, and it is
the answer to a front part of the first scan. -/
theorem answer_right_unless_called_off_between_looks {text : String} {c : Command}
    {capacity : ℕ} {s s' : Session} {task : SelectTask}
    (hcompile : Command.compile text = .ok c)
    (hplan : c.plan capacity s = .ok (.select task.plan) s') (fault : List Fault) :
    ∃ table, (Plan.select task.plan).execute (task.session []) = (.ok table, task.session [])
      ∧ (∀ schedule, SelectTask.Fair schedule → ∃ n,
          (task.exposedAfter fault (SelectTask.movesUntil schedule n)).returned?.isSome)
      ∧ ∀ moves, (task.exposedAfter fault moves).store.memory = task.memory
        ∧ (∀ e, (task.exposedAfter fault moves).returned? = some (.error e) →
            e.DueTo (task.session fault) ∨ e = .cancelled ∧ .cancel ∈ moves)
        ∧ ∀ answer, (task.exposedAfter fault moves).returned? = some (.ok answer) →
            answer = table
              ∨ task.CalledOffBetweenLooks fault moves
                ∧ ∃ sent left, task.scan = sent ++ left ∧ left ≠ []
                  ∧ answer = task.answerTo sent := by
  have hsound := SelectPlan.sound_of_compile hcompile hplan
  refine ⟨task.plan.fullAnswer task.memory,
    hsound.execute_of_calm (Session.calm_begin task.memory task.access),
    fun schedule => SelectTask.exists_returned_of_fair hsound.capacity_pos fault,
    fun moves => ⟨SelectTask.memory_exposedAfter moves, fun e h => ?_, fun answer h => ?_⟩⟩
  · refine SelectTask.blamed_of_error hsound ?_
    rw [Parties.returned?_eq_some_iff.mp h]
    rfl
  · exact SelectTask.answers_of_returned hsound (.inl (Parties.returned?_eq_some_iff.mp h))

/-- A row has been collected when the second page of the first scan fails, and it is
not given as the answer. -/
theorem answer_withheld_of_page_that_fails :
    let task := SelectTask.oneSubject
    let fault : List Fault := [⟨.page, 1, .fail (.io .notFound)⟩]
    let moves : List Move := [.produce, .produce, .produce, .consume, .consume, .consume,
      .consume, .produce, .produce, .produce, .consume, .consume, .consume]
    (∃ c s, Command.compile "SELECT ?s WHERE (?s, p, ?)" = .ok c
        ∧ c.plan 1 (.begin { memory := task.memory, access := task.access })
            = .ok (.select task.plan) s)
      ∧ (task.exposedAfter fault moves).returned? = some (.error (.store (.io .notFound)))
      ∧ (ExecuteError.store (.io .notFound)).DueTo (task.session fault)
      ∧ (task.exposedAfter fault moves).store.memory = task.memory
      ∧ (∃ n, (task.exposedAfter fault
          (SelectTask.movesUntil SelectTask.alternating n)).returned?.isSome)
      ∧ (Plan.select task.plan).execute (task.session [])
        = (.ok ⟨["?s"], [[⟨"a"⟩]]⟩, task.session []) := by
  intro task fault moves
  obtain ⟨c, s, hcompile, hplan⟩ := SelectTask.exists_plan_oneSubject
  obtain ⟨table, hcalm, hreturns, hmoves⟩ :=
    @answer_right_unless_called_off_between_looks _ c 1 _ s task hcompile hplan fault
  obtain ⟨hmemory, herror, -⟩ := hmoves moves
  have hreturned : (task.exposedAfter fault moves).returned?
      = some (.error (.store (.io .notFound))) := by decide +kernel
  have hrow : ((Plan.select task.plan).execute (task.session [])).1.toOption
      = some ⟨["?s"], [[⟨"a"⟩]]⟩ := by decide +kernel
  rw [hcalm] at hrow
  have htable : table = ⟨["?s"], [[⟨"a"⟩]]⟩ := Option.some.inj hrow
  have hdue := (herror _ hreturned).resolve_right fun h => ExecuteError.noConfusion h.1
  rw [htable] at hcalm
  exact ⟨⟨c, s, hcompile, hplan⟩, hreturned, hdue, hmemory,
    hreturns _ SelectTask.fair_alternating, hcalm⟩

/-- **A page that cancels the run can spoil the answer.** The join looks at the run,
and then the scan reads its first page. That cancels the run, so the scan sees that it
has been stopped and leaves, and the join finds the channel closed. What it returns as
an answer has no row. Without faults the answer has one. -/
theorem answer_truncated_of_page_that_cancels :
    let task := SelectTask.oneSubject
    (∃ c s, Command.compile "SELECT ?s WHERE (?s, p, ?)" = .ok c
        ∧ c.plan 1 (.begin { memory := task.memory, access := task.access })
            = .ok (.select task.plan) s)
      ∧ (task.exposedAfter [⟨.page, 0, .cancel⟩] [.consume, .produce, .produce, .produce,
          .consume, .consume]).returned? = some (.ok ⟨["?s"], []⟩)
      ∧ ((Plan.select task.plan).execute (task.session [])).1.toOption
        = some ⟨["?s"], [[⟨"a"⟩]]⟩ := by
  refine ⟨SelectTask.exists_plan_oneSubject, ?_, ?_⟩
  · decide +kernel
  · decide +kernel

end TripleScript
