import Mathlib.Logic.Relation
import TripleScript.Proofs.Select.Interleaving

/-!
# Every front part of the first scan can be the one that is answered

An answer that lacks rows is not a rare accident of some store or some query:
for any front part of the first scan there are moves after which the answer
to that part is returned as if it were complete (`exists_answer_iff`). The
two sides hand over the triples of the part, one at a time; then the join
looks at the run, the run is cancelled, the scan sees it and leaves, and the
join finds the channel closed.

Without a cancellation there is one answer only, the one that `SelectPlan.run`
gives when the two sides take turns (`exists_uncancelled_answer_iff_run`).
-/

namespace TripleScript

namespace SelectTask

variable (task : SelectTask)

/-- **One party makes a move.** -/
def Step (s s' : Parties) : Prop :=
  ∃ move, task.move s move = s'

/-- Some moves lead from one state of the parties to another. -/
abbrev Leads : Parties → Parties → Prop :=
  Relation.ReflTransGen task.Step

variable {task} {s s' : Parties}

/-- Where moves lead from the beginning. -/
theorem exists_after_of_leads (h : task.Leads task.start s) : ∃ moves, task.after moves = s := by
  induction h with
  | refl => exact ⟨[], rfl⟩
  | tail _ hstep ih =>
    obtain ⟨moves, rfl⟩ := ih
    obtain ⟨move, rfl⟩ := hstep
    exact ⟨moves ++ [move], by rw [after_append, List.foldl_cons, List.foldl_nil]⟩

theorem leads_produce (h : task.produce s = s') : task.Leads s s' :=
  .single ⟨.produce, h⟩

theorem leads_consume (h : task.consume s = s') : task.Leads s s' :=
  .single ⟨.consume, h⟩

/-! ## The scan -/

/-- The scan is at a point where it can stop, before a page or a triple. -/
def Interruptible : Producer → Prop
  | .reading _ => True
  | .looking .. => True
  | _ => False

/-- **A scan that is stopped leaves and closes the channel**, and it hands on
nothing any more. -/
theorem leads_gone (hcap : 0 < task.plan.capacity) (hproducer : Interruptible s.producer)
    (hstopped : s.stopped = true) : task.Leads s { s with producer := .gone } := by
  obtain ⟨producer, channel, consumer, cancelled⟩ := s
  have hstopped : (cancelled || consumer.hasLeft) = true := hstopped
  have hleave : task.Leads ⟨.leaving, channel, consumer, cancelled⟩
      ⟨.gone, channel, consumer, cancelled⟩ := leads_produce rfl
  have hcons : ∀ t page last full,
      task.Leads ⟨.looking (t :: page) last full, channel, consumer, cancelled⟩
        ⟨.gone, channel, consumer, cancelled⟩ := by
    intro t page last full
    refine .trans (leads_produce ?_) hleave
    simp only [SelectTask.produce, Parties.stopped, hstopped, if_true]
  -- it does not leave before it has looked, so a page it was about to read is read
  have hpage : ∀ page : List Triple,
      task.Leads ⟨.looking page page.getLast? (task.plan.capacity ≤ page.length), channel,
        consumer, cancelled⟩ ⟨.gone, channel, consumer, cancelled⟩ := by
    intro page
    cases page with
    | cons t page => exact hcons t page _ _
    | nil =>
      refine .trans (leads_produce ?_) hleave
      simp [SelectTask.produce, hcap.ne']
  have hread : ∀ cursor, task.Leads ⟨.reading cursor, channel, consumer, cancelled⟩
      ⟨.gone, channel, consumer, cancelled⟩ :=
    fun cursor => .trans (leads_produce rfl) (hpage _)
  cases producer with
  | reading cursor => exact hread cursor
  | looking page last full =>
    cases page with
    | cons t page => exact hcons t page last full
    | nil =>
      cases full with
      | true => exact .trans (leads_produce rfl) (hread last)
      | false => exact .trans (leads_produce rfl) hleave
  | _ => exact hproducer.elim

/-- **A scan of which nothing is left closes the channel**, stopped or not. -/
theorem leads_gone_of_end (hcap : 0 < task.plan.capacity) {producer : Producer}
    (hproducer : Interruptible producer) {stopped : Bool}
    (hahead : task.Ahead [] stopped producer) (channel : List Triple) (consumer : Consumer)
    (cancelled : Bool) :
    task.Leads ⟨producer, channel, consumer, cancelled⟩
      ⟨.gone, channel, consumer, cancelled⟩ := by
  have hleave : task.Leads ⟨.leaving, channel, consumer, cancelled⟩
      ⟨.gone, channel, consumer, cancelled⟩ := leads_produce rfl
  have hend : ∀ last, task.Leads ⟨.looking [] last false, channel, consumer, cancelled⟩
      ⟨.gone, channel, consumer, cancelled⟩ :=
    fun last => .trans (leads_produce rfl) hleave
  -- behind the last triple there is one page more, and it is empty
  have hread : ∀ cursor, task.Behind [] cursor →
      task.Leads ⟨.reading cursor, channel, consumer, cancelled⟩
        ⟨.gone, channel, consumer, cancelled⟩ := by
    intro cursor hbehind
    have hpage := page_of_behind hbehind
    rw [List.take_nil] at hpage
    refine .trans (leads_produce ?_) (hend none)
    simp [SelectTask.produce, hpage, hcap.ne']
  cases producer with
  | reading cursor => exact hread cursor hahead
  | looking page last full =>
    obtain ⟨behind, hleft, -, hmore⟩ := hahead
    obtain ⟨rfl, rfl⟩ := List.append_eq_nil_iff.mp hleft.symm
    cases full with
    | true => exact .trans (leads_produce rfl) (hread last (hmore rfl))
    | false => exact hend last
  | _ => exact hproducer.elim

/-- **A scan that is not stopped hands on the next triple** if there is one. -/
theorem leads_hand (hcap : 0 < task.plan.capacity) {producer : Producer}
    (hproducer : Interruptible producer) {c : Collector} {t : Triple} {left : List Triple}
    (hahead : task.Ahead (t :: left) false producer) :
    ∃ producer', Interruptible producer' ∧ task.Ahead left false producer'
      ∧ task.Leads ⟨producer, [], .looking c, false⟩ ⟨producer', [t], .looking c, false⟩ := by
  have hlooking : ∀ u page last full,
      task.Ahead (t :: left) false (.looking (u :: page) last full) →
      ∃ producer', Interruptible producer' ∧ task.Ahead left false producer'
        ∧ task.Leads ⟨.looking (u :: page) last full, [], .looking c, false⟩
            ⟨producer', [t], .looking c, false⟩ := by
    rintro u page last full ⟨behind, hleft, hlast, hmore⟩
    obtain ⟨rfl, rfl⟩ := List.cons.inj hleft
    refine ⟨.looking page last full, trivial, ⟨behind, rfl, hlast, hmore⟩, ?_⟩
    have hlook : task.Leads ⟨.looking (t :: page) last full, [], .looking c, false⟩
        ⟨.sending t page last full, [], .looking c, false⟩ := leads_produce rfl
    refine hlook.trans (leads_produce ?_)
    simp [SelectTask.produce, Consumer.hasLeft, hcap]
  have hreading : ∀ cursor, task.Ahead (t :: left) false (.reading cursor) →
      ∃ producer', Interruptible producer' ∧ task.Ahead left false producer'
        ∧ task.Leads ⟨.reading cursor, [], .looking c, false⟩
            ⟨producer', [t], .looking c, false⟩ := by
    intro cursor hbehind
    have hpage := page_of_behind hbehind
    have hread := Ahead.read hcap hbehind false
    obtain ⟨n, hn⟩ := Nat.exists_eq_succ_of_ne_zero hcap.ne'
    rw [hn, List.take_succ_cons, ← hn] at hread
    obtain ⟨producer', hidle, hahead, hleads⟩ := hlooking _ _ _ _ hread
    refine ⟨producer', hidle, hahead, .trans (leads_produce ?_) hleads⟩
    simp only [SelectTask.produce, hpage]
    rw [hn, List.take_succ_cons]
  cases producer with
  | reading cursor => exact hreading cursor hahead
  | looking page last full =>
    cases page with
    | cons u page => exact hlooking u page last full hahead
    | nil =>
      obtain ⟨behind, hleft, hlast, hmore⟩ := hahead
      cases full with
      | false =>
        rw [hlast rfl] at hleft
        cases hleft
      | true =>
        obtain rfl : t :: left = behind := hleft
        obtain ⟨producer', hidle, hahead, hleads⟩ := hreading last (hmore rfl)
        exact ⟨producer', hidle, hahead, .trans (leads_produce rfl) hleads⟩
  | _ => exact hproducer.elim

/-! ## The join -/

/-- Where the join is after it has extended some rows, with more work to do. -/
def afterwards (work : List (Row × List ScanStep)) :
    Except ExecuteError (Bool × Collector) → Consumer
  | .ok (true, c) => .extending work c
  | .ok (false, c) => .closing (.ok c)
  | .error e => .closing (.error e)

/-- Extending rows one after the other collects what is ahead of them, if
extending each of them does. -/
theorem leads_extendEach {producer : Producer} {channel : List Triple}
    {steps : List ScanStep}
    (hone : ∀ row work c, task.Leads ⟨producer, channel, .extending ((row, steps) :: work) c, false⟩
      ⟨producer, channel,
        afterwards work (Collector.takeAll (completions task.memory steps row) c), false⟩)
    (rows : List Row) (work : List (Row × List ScanStep)) (c : Collector) :
    task.Leads ⟨producer, channel, .extending (rows.map (·, steps) ++ work) c, false⟩
      ⟨producer, channel,
        afterwards work (Collector.takeAll (task.rowsAhead (rows.map (·, steps))) c), false⟩ := by
  induction rows generalizing c with
  | nil => exact .refl
  | cons row rows ih =>
    have hahead : task.rowsAhead ((row :: rows).map (·, steps))
        = completions task.memory steps row ++ task.rowsAhead (rows.map (·, steps)) :=
      List.flatMap_cons
    rw [hahead, Collector.takeAll_append]
    refine .trans (hone row (rows.map (·, steps) ++ work) c) ?_
    cases Collector.takeAll (completions task.memory steps row) c with
    | error e => exact .refl
    | ok result =>
      obtain ⟨more, c'⟩ := result
      cases more with
      | false => exact .refl
      | true => exact ih c'

variable (task) in
/-- **Extending a row collects its completions**, when nobody cancels. -/
theorem leads_extend (producer : Producer) (channel : List Triple) (steps : List ScanStep)
    (row : Row) (work : List (Row × List ScanStep)) (c : Collector) :
    task.Leads ⟨producer, channel, .extending ((row, steps) :: work) c, false⟩
      ⟨producer, channel,
        afterwards work (Collector.takeAll (completions task.memory steps row) c), false⟩ := by
  induction steps generalizing row work c with
  | nil =>
    refine leads_consume ?_
    simp only [SelectTask.consume, extendNext, completions, Collector.takeAll]
    cases c.push row with
    | error e => rfl
    | ok result =>
      obtain ⟨more, c'⟩ := result
      cases more <;> rfl
  | cons step steps ih =>
    have hahead := rowsAhead_extended task row step steps []
    rw [List.append_nil] at hahead
    have hrows : task.rowsAhead ((row, step :: steps) :: [])
        = completions task.memory (step :: steps) row := List.flatMap_singleton _ _
    rw [← hrows, ← hahead]
    exact .trans (leads_consume rfl) (leads_extendEach ih _ work c)

variable (task) in
/-- **Taking a triple from the channel** collects the rows it leads to. -/
theorem leads_take (producer : Producer) (t : Triple) (c : Collector) :
    task.Leads ⟨producer, [t], .looking c, false⟩
      ⟨producer, [], afterwards [] (Collector.takeAll (task.rowsOf [t]) c), false⟩ := by
  have hextend := leads_extendEach (leads_extend task producer [] task.rest)
    (task.first.pattern.bind t (Row.empty task.plan.slotCount)).toList [] c
  rw [List.append_nil, ← begun, rowsAhead_begun] at hextend
  exact .trans (leads_consume rfl) (.trans (leads_consume rfl) hextend)

/-! ## A front part of the scan -/

/-- **The triples of a front part of the scan can be handed over and joined**
one by one, until the collector is full. -/
theorem exists_leads_front (hp : task.plan.Sound) (taken left : List Triple)
    (hscan : task.scan = taken ++ left) :
    ∃ producer more c, Interruptible producer
      ∧ Collector.takeAll (task.rowsOf taken) (.ofPlan task.plan) = .ok (more, c)
      ∧ (more = true → task.Ahead left false producer)
      ∧ task.Leads task.start
          ⟨producer, [], if more then .looking c else .closing (.ok c), false⟩ := by
  induction taken using List.reverseRecOn generalizing left with
  | nil => exact ⟨.reading none, true, _, trivial, rfl, fun _ => hscan.symm, .refl⟩
  | append_singleton taken t ih =>
    rw [List.append_assoc, List.singleton_append] at hscan
    obtain ⟨producer, more, c, hidle, htake, hahead, hleads⟩ := ih (t :: left) hscan
    have hnext := Collector.takeAll_append (task.rowsOf taken) (task.rowsOf [t])
      (.ofPlan task.plan)
    rw [← rowsOf_append, htake] at hnext
    cases more with
    | false =>
      exact ⟨producer, false, c, hidle, hnext, Bool.noConfusion, hleads⟩
    | true =>
      have hprefix : taken ++ [t] <+: task.scan := ⟨left, by rw [hscan]; simp⟩
      obtain ⟨more', c', htake', -⟩ := takeAll_rowsOf hp hprefix
      obtain ⟨producer', hidle', hahead', hhand⟩ :=
        leads_hand hp.capacity_pos hidle (c := c) (hahead rfl)
      -- the join takes the triple as soon as it is handed on
      have htaken := leads_take task producer' t c
      rw [show Collector.takeAll (task.rowsOf [t]) c = .ok (more', c') from
        hnext.symm.trans htake'] at htaken
      refine ⟨producer', more', c', hidle', htake', fun _ => hahead', ?_⟩
      refine hleads.trans (hhand.trans (htaken.trans ?_))
      cases more' with
      | false => exact .refl
      | true => exact leads_consume rfl

/-- **Every front part of the first scan can be the one that is answered.** -/
theorem exists_answer_of_front (hp : task.plan.Sound) {sent : List Triple}
    (hsent : sent <+: task.scan) :
    ∃ moves, (task.after moves).answer? = some (task.answerTo sent) := by
  obtain ⟨left, hscan⟩ := hsent
  obtain ⟨producer, more, c, hidle, htake, -, hleads⟩ :=
    exists_leads_front hp sent left hscan.symm
  obtain ⟨more', c', htake', hanswer⟩ := takeAll_rowsOf hp ⟨left, hscan⟩
  cases htake.symm.trans htake'
  rw [← hanswer]
  suffices hclose : ∃ cancelled, task.Leads task.start ⟨.gone, [], .closing (.ok c), cancelled⟩ by
    obtain ⟨cancelled, hclose⟩ := hclose
    obtain ⟨moves, hmoves⟩ := exists_after_of_leads (hclose.trans (leads_consume rfl))
    exact ⟨moves, by rw [hmoves]; rfl⟩
  cases more with
  | false => exact ⟨false, hleads.trans (leads_gone hp.capacity_pos hidle rfl)⟩
  | true =>
    -- the join looks at the run, and only then the run is cancelled
    have hlook : task.Leads ⟨producer, [], .looking c, false⟩
        ⟨producer, [], .receiving c, false⟩ := leads_consume rfl
    have hcancel : task.Leads ⟨producer, [], .receiving c, false⟩
        ⟨producer, [], .receiving c, true⟩ := .single ⟨.cancel, rfl⟩
    have hgone : task.Leads ⟨producer, [], .receiving c, true⟩ ⟨.gone, [], .receiving c, true⟩ :=
      leads_gone hp.capacity_pos hidle rfl
    have hclose : task.Leads ⟨.gone, [], .receiving c, true⟩ ⟨.gone, [], .closing (.ok c), true⟩ :=
      leads_consume rfl
    exact ⟨true, hleads.trans (hlook.trans (hcancel.trans (hgone.trans hclose)))⟩

/-- **What can be answered**: the answers to the front parts of the first scan,
and nothing else. -/
theorem exists_answer_iff (hp : task.plan.Sound) {table : Table} :
    (∃ moves, (task.after moves).answer? = some table)
      ↔ ∃ sent, sent <+: task.scan ∧ table = task.answerTo sent := by
  constructor
  · rintro ⟨moves, h⟩
    rcases complete_or_cancelledBetweenLooks hp h with rfl | ⟨-, sent, left, hscan, -, rfl⟩
    · exact ⟨task.scan, List.prefix_refl _, answerTo_scan.symm⟩
    · exact ⟨sent, ⟨left, hscan.symm⟩, rfl⟩
  · rintro ⟨sent, hsent, rfl⟩
    exact exists_answer_of_front hp hsent

/-- **Without cancellation the order of the moves does not matter**: what moves
without a cancellation can answer is what the two sides answer when they take
turns and nothing disturbs them. -/
theorem exists_uncancelled_answer_iff_run (hp : task.plan.Sound) (watched : Bool)
    {s : Session} (hs : s.Calm) (hmemory : s.store.memory = task.memory) {table : Table} :
    (∃ moves, .cancel ∉ moves ∧ (task.after moves).answer? = some table)
      ↔ task.plan.run watched s = (.finished (.ok table), s) := by
  rw [hp.run_of_calm watched hs, hmemory]
  constructor
  · rintro ⟨moves, hmoves, hanswer⟩
    rcases complete_or_cancelledBetweenLooks hp hanswer with rfl | ⟨hcancelled, -⟩
    · rfl
    · exact absurd hcancelled.cancel_mem hmoves
  · intro h
    obtain rfl : task.plan.fullAnswer task.memory = table := by simpa using h
    obtain ⟨producer, more, c, hidle, htake, hahead, hleads⟩ :=
      exists_leads_front hp task.scan [] (List.append_nil _).symm
    obtain ⟨more', c', htake', hanswer⟩ := takeAll_rowsOf hp (List.prefix_refl task.scan)
    cases htake.symm.trans htake'
    have hclose : task.Leads task.start ⟨.gone, [], .closing (.ok c), false⟩ := by
      cases more with
      | false => exact hleads.trans (leads_gone hp.capacity_pos hidle rfl)
      | true =>
        have hgone := leads_gone_of_end hp.capacity_pos hidle (hahead rfl) [] (.looking c) false
        have hlook : task.Leads ⟨.gone, [], .looking c, false⟩ ⟨.gone, [], .receiving c, false⟩ :=
          leads_consume rfl
        exact hleads.trans (hgone.trans (hlook.trans (leads_consume rfl)))
    obtain ⟨moves, hmoves⟩ := exists_after_of_leads (hclose.trans (leads_consume rfl))
    refine ⟨moves, fun hmem => ?_, ?_⟩
    · have hcancelled : (task.after moves).cancelled = true := cancelled_after.mpr hmem
      rw [hmoves] at hcancelled
      cases hcancelled
    · rw [hmoves, ← answerTo_scan, ← hanswer]
      rfl

end SelectTask

/-! ## Answers to planned queries -/

/-- **A planned query is answered completely unless the run is cancelled
between two looks of the join.** If a plan is made from a text and carried out
on a store, and after some moves of the two sides and of whoever cancels the
run there is an answer, then it is the complete answer – or the run was
cancelled after the join had looked at it for the last time and before the
join found the channel closed, and the answer is that to a front part of the
first scan. -/
theorem answer_complete_or_cancelledBetweenLooks {text : String} {c : Command}
    {capacity : ℕ} {s : Session} {task : SelectTask} {moves : List Move} {table : Table}
    (hcompile : Command.compile text = .ok c)
    (hplan : c.plan capacity (.begin { memory := task.memory, access := task.access })
      = .ok (.select task.plan) s)
    (hanswer : (task.after moves).answer? = some table) :
    table = task.plan.fullAnswer task.memory
      ∨ task.CancelledBetweenLooks moves
        ∧ ∃ sent left, task.scan = sent ++ left ∧ left ≠ [] ∧ table = task.answerTo sent :=
  SelectTask.complete_or_cancelledBetweenLooks (SelectPlan.sound_of_compile hcompile hplan)
    hanswer

/-- A query for the subjects of one predicate, on a store with one triple. -/
def SelectTask.oneSubject : SelectTask where
  plan :=
    { steps := [⟨⟨.slot 0, .const ⟨"p"⟩, .slot 1⟩, 0, 1⟩]
      slotCount := 2
      columns := ["?s"]
      projection := [0]
      distinct := false
      limit := none
      capacity := 1 }
  first := ⟨⟨.slot 0, .const ⟨"p"⟩, .slot 1⟩, 0, 1⟩
  rest := []
  steps_eq := rfl
  memory := { name := "one", triples := Indexes.insert ∅ ⟨⟨"a"⟩, ⟨"p"⟩, ⟨"b"⟩⟩ }

/-- The query is planned from a text. -/
theorem SelectTask.exists_plan_oneSubject :
    ∃ c s, Command.compile "SELECT ?s WHERE (?s, p, ?)" = .ok c
      ∧ c.plan 1 (.begin { memory := oneSubject.memory, access := oneSubject.access })
          = .ok (.select oneSubject.plan) s := by
  have hplan : (planned? "SELECT ?s WHERE (?s, p, ?)" 1 oneSubject.memory
      oneSubject.access).map Prod.fst = some (.select oneSubject.plan) := by
    decide +kernel
  obtain ⟨⟨p, s⟩, hplanned, rfl⟩ := Option.map_eq_some_iff.mp hplan
  obtain ⟨c, hcompile, hplan⟩ := exists_command_of_planned? hplanned
  exact ⟨c, s, hcompile, hplan⟩

/-- When the run is cancelled once the channel has been found closed, the
answer is complete. -/
theorem answer_complete_of_late_cancel :
    let task := SelectTask.oneSubject
    let moves : List Move := [.produce, .produce, .produce, .consume, .consume, .consume,
      .consume, .produce, .produce, .produce, .produce, .consume, .consume, .cancel, .consume]
    (task.after moves).answer? = some ⟨["?s"], [[⟨"a"⟩]]⟩
      ∧ (⟨["?s"], [[⟨"a"⟩]]⟩ = task.plan.fullAnswer task.memory
        ∨ task.CancelledBetweenLooks moves
          ∧ ∃ sent left, task.scan = sent ++ left ∧ left ≠ []
            ∧ ⟨["?s"], [[⟨"a"⟩]]⟩ = task.answerTo sent) := by
  intro task moves
  obtain ⟨c, s, hcompile, hplan⟩ := SelectTask.exists_plan_oneSubject
  have hanswer : (task.after moves).answer? = some ⟨["?s"], [[⟨"a"⟩]]⟩ := by decide +kernel
  exact ⟨hanswer, answer_complete_or_cancelledBetweenLooks hcompile hplan hanswer⟩

/-- **A planned query can be answered without its rows.** The join looks at the
run, the run is cancelled, the scan reads its page, sees that it has been
stopped and leaves, and the join finds the channel closed. What it returns as
an answer has no row, and the complete answer has one. -/
theorem answer_truncated_of_cancel_between_looks :
    let task := SelectTask.oneSubject
    (∃ c s, Command.compile "SELECT ?s WHERE (?s, p, ?)" = .ok c
        ∧ c.plan 1 (.begin { memory := task.memory, access := task.access })
            = .ok (.select task.plan) s)
      ∧ (task.after [.consume, .cancel, .produce, .produce, .produce, .consume,
          .consume]).answer? = some ⟨["?s"], []⟩
      ∧ task.plan.fullAnswer task.memory = ⟨["?s"], [[⟨"a"⟩]]⟩ := by
  refine ⟨SelectTask.exists_plan_oneSubject, ?_, ?_⟩
  · decide +kernel
  · decide +kernel

end TripleScript
