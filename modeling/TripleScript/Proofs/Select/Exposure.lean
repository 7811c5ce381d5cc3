import TripleScript.Proofs.Select.Interleaving
import TripleScript.Select.Exposure

/-!
# A store that fails, in any order of the moves

What is true of the two sides of a query when nothing fails (`SelectTask.Accounts`)
stays true when the store can fail, with one reservation: a first scan that has failed
has left its loop with triples before it that nobody gets
(`SelectTask.ExposedAccounts`). Faults are used up and none is new, so whatever is
wrong after some moves was in wait before the first of them, or somebody has cancelled
the run (`SelectTask.Endures`).

It follows that an error has a reason (`SelectTask.blamed_of_error`), and that an
answer is the complete one unless the run was called off between two looks of the join
(`SelectTask.answers_of_returned`). A failure is no such case. It keeps the answer
back, and so one that is given comes from a scan that was read to its end, or stopped.

If no fault is in wait, the orders are those of `SelectTask.after`
(`SelectTask.exposedAfter_nil`).
-/

namespace TripleScript

/-- The parties in a session. -/
def ExposedParties.within (u : Session) (producer : Producer) (channel : List Triple)
    (consumer : Consumer) (failure : Option SystemError) : ExposedParties :=
  ⟨⟨producer, channel, consumer, u.cancelled⟩, u.store, failure⟩

open ExposedParties (within)

/-- What has been returned is where the join is. -/
theorem Parties.returned?_eq_some_iff {s : Parties} {result : Except ExecuteError Table} :
    s.returned? = some result ↔ s.consumer = .returned result := by
  unfold returned?
  cases s.consumer <;> simp

namespace SelectTask

variable {task : SelectTask} {s : ExposedParties} {fault : List Fault} {moves : List Move}
  {taken left : List Triple}

variable (task) in
/-- The move of the scan that reads a page. -/
theorem exposedProduce_page (cursor : Option Triple) (channel : List Triple) (consumer : Consumer)
    (u : Session) :
    task.exposedProduce (within u (.reading cursor) channel consumer none)
      = match Session.page task.lookup cursor task.plan.capacity u with
        | .error e u => within u .leaving channel consumer (some e)
        | .ok page u => within u (.looking page page.getLast?
            (task.plan.capacity ≤ page.length)) channel consumer none :=
  rfl

variable (task) in
/-- The move of the join that makes a scan. -/
theorem exposedConsume_scan (producer : Producer) (channel : List Triple)
    (failure : Option SystemError) (row : Row) (step : ScanStep) (steps : List ScanStep)
    (work : List (Row × List ScanStep)) (c : Collector) (u : Session) :
    task.exposedConsume
        (within u producer channel (.extending ((row, step :: steps) :: work) c) failure)
      = if u.cancelled then within u producer channel (.closing (.error .cancelled)) failure
        else match Session.scan (step.pattern.lookup row) u with
          | .error e u => within u producer channel (.closing (.error (.store e))) failure
          | .ok ts u => within u producer channel (.extending
              ((ts.filterMap (step.pattern.bind · row)).map (·, steps) ++ work) c) failure := by
  rfl

/-- A move of the first scan only reads. -/
theorem undergoes_exposedProduce (s : ExposedParties) :
    s.session.Undergoes (task.exposedProduce s).session := by
  fun_cases SelectTask.exposedProduce task s with
  | case1 after hproducer e session hpage => exact (Session.dueTo_of_page hpage).1
  | case2 after hproducer page session hpage => exact (Session.undergoes_of_page hpage).2
  | case3 =>
    show s.session.Undergoes ⟨s.store, (task.produce s.toParties).cancelled⟩
    rw [cancelled_produce]
    exact .refl s.session

/-- A move of the join only reads. -/
theorem undergoes_exposedConsume (s : ExposedParties) :
    s.session.Undergoes (task.exposedConsume s).session := by
  fun_cases SelectTask.exposedConsume task s with
  | case1 => exact .refl s.session
  | case2 row step steps work c hconsumer hc e session hscan =>
    exact (Session.dueTo_of_scan hscan).1
  | case3 row step steps work c hconsumer hc ts session hscan =>
    exact (Session.undergoes_of_scan hscan).2
  | case4 => exact .refl s.session
  | case5 => exact .refl s.session
  | case6 =>
    show s.session.Undergoes ⟨s.store, (task.consume s.toParties).cancelled⟩
    rw [cancelled_consume]
    exact .refl s.session

theorem exposedAfter_append (moves more : List Move) :
    task.exposedAfter fault (moves ++ more)
      = more.foldl task.exposedMove (task.exposedAfter fault moves) :=
  List.foldl_append

theorem exposedAfter_concat (moves : List Move) (move : Move) :
    task.exposedAfter fault (moves ++ [move])
      = task.exposedMove (task.exposedAfter fault moves) move := by
  rw [exposedAfter_append, List.foldl_cons, List.foldl_nil]

/-! ## Who is to blame -/

variable (task fault moves) in
/-- **There is a reason for an error**: trouble that was in wait, or somebody has
cancelled the run. -/
def Blamed (e : ExecuteError) : Prop :=
  e.DueTo (task.session fault) ∨ e = .cancelled ∧ .cancel ∈ moves

/-- A reason stays one. -/
theorem Blamed.concat {e : ExecuteError} (h : task.Blamed fault moves e) (move : Move) :
    task.Blamed fault (moves ++ [move]) e :=
  h.imp_right fun ⟨he, hmem⟩ => ⟨he, List.mem_append_left _ hmem⟩

variable (task fault moves) in
/-- **What has become of the session** is due to trouble that was in wait and to
whoever cancels the run. -/
structure Endures (s : Session) : Prop where
  /-- The store holds what it held. -/
  same : (task.session fault).SameStore s
  /-- No fault is new. -/
  threatens : ∀ r strike, s.Threatens r strike → (task.session fault).Threatens r strike
  /-- There is a reason if the run is cancelled. -/
  cancelled : s.cancelled = true → task.Blamed fault moves .cancelled

/-- What is wrong later has a reason. -/
theorem Endures.blamed {s : Session} (h : task.Endures fault moves s) {e : ExecuteError}
    (he : e.DueTo s) : task.Blamed fault moves e := by
  cases he with
  | fault hr hf => exact .inl (.fault hr (h.threatens _ _ hf))
  | cancelled hc => exact h.cancelled hc
  | callOff hr hf => exact .inl (.callOff hr (h.threatens _ _ hf))

/-- Reading keeps what is known of the session. -/
theorem Endures.undergoes {s s' : Session} (h : task.Endures fault moves s)
    (hs : s.Undergoes s') (move : Move) : task.Endures fault (moves ++ [move]) s' where
  same := h.same.trans hs.toSameStore
  threatens r strike hf := h.threatens r strike (hs.threatens r strike hf)
  cancelled hc := (h.blamed (hs.due hc)).concat move

/-- **What has become of the session after some moves.** -/
theorem endures_exposedAfter (moves : List Move) :
    task.Endures fault moves (task.exposedAfter fault moves).session := by
  induction moves using List.reverseRecOn with
  | nil => exact ⟨.refl _, fun _ _ => id, nofun⟩
  | append_singleton moves move ih =>
    rw [exposedAfter_concat]
    cases move with
    | produce => exact ih.undergoes (undergoes_exposedProduce _) _
    | consume => exact ih.undergoes (undergoes_exposedConsume _) _
    | cancel =>
      exact ⟨ih.same.trans ⟨rfl, rfl, fun _ => rfl⟩, ih.threatens,
        fun _ => .inr ⟨rfl, List.mem_append_right _ (List.mem_singleton.mpr rfl)⟩⟩

/-- The store holds what it held at the beginning, and finds pages in the same
way. -/
theorem memory_exposedAfter (moves : List Move) :
    (task.exposedAfter fault moves).store.memory = task.memory :=
  (endures_exposedAfter moves).same.memory

theorem access_exposedAfter (moves : List Move) :
    (task.exposedAfter fault moves).store.access = task.access :=
  (endures_exposedAfter moves).same.access

variable (task) in
/-- The first scan fails with the error of a fault. -/
theorem failure_exposedProduce (s : ExposedParties) :
    (task.exposedProduce s).failure = s.failure
      ∨ ∃ e, (task.exposedProduce s).failure = some e
        ∧ (ExecuteError.store e).DueTo s.session := by
  fun_cases SelectTask.exposedProduce task s with
  | case1 after hproducer e session hpage => exact .inr ⟨e, rfl, (Session.dueTo_of_page hpage).2⟩
  | case2 => exact .inl rfl
  | case3 => exact .inl rfl

@[simp] theorem failure_exposedConsume (s : ExposedParties) :
    (task.exposedConsume s).failure = s.failure := by
  fun_cases SelectTask.exposedConsume task s <;> rfl

@[simp] theorem producer_exposedConsume (s : ExposedParties) :
    (task.exposedConsume s).producer = s.producer := by
  fun_cases SelectTask.exposedConsume task s with
  | case6 => exact producer_consume s.toParties
  | _ => rfl

@[simp] theorem consumer_exposedProduce (s : ExposedParties) :
    (task.exposedProduce s).consumer = s.consumer := by
  fun_cases SelectTask.exposedProduce task s with
  | case3 => exact consumer_produce s.toParties
  | _ => rfl

/-- A failure of the first scan has a reason. -/
theorem blamed_of_failure {e : SystemError}
    (h : (task.exposedAfter fault moves).failure = some e) :
    task.Blamed fault moves (.store e) := by
  induction moves using List.reverseRecOn with
  | nil => cases h
  | append_singleton moves move ih =>
    rw [exposedAfter_concat] at h
    cases move with
    | produce =>
      rcases task.failure_exposedProduce (task.exposedAfter fault moves) with
        hsame | ⟨e', hnew, hdue⟩
      · exact (ih (hsame.symm.trans h)).concat _
      · obtain rfl : e' = e := Option.some.inj (hnew.symm.trans h)
        exact ((endures_exposedAfter moves).blamed hdue).concat _
    | consume => exact (ih ((failure_exposedConsume _).symm.trans h)).concat _
    | cancel => exact (ih h).concat _

/-! ## Nothing is lost -/

variable (task) in
/-- **The first scan is accounted for**, also when it has failed: then it hands on
nothing any more. -/
structure ExposedAccounts (s : ExposedParties) (taken left : List Triple) : Prop where
  /-- No triple is lost, and none comes twice. -/
  scan : task.scan = taken ++ s.channel ++ left
  /-- A scan that has not failed knows what is left. -/
  producer : s.failure = none → task.Ahead left s.stopped s.producer
  /-- A scan that has failed has left its loop. -/
  failed : s.failure ≠ none → s.producer = .leaving ∨ s.producer = .gone
  /-- The join has used what it has taken. -/
  consumer : task.Collected taken s.consumer

/-- **A move of the scan keeps the account.** -/
theorem ExposedAccounts.produce (hcap : 0 < task.plan.capacity)
    (hmemory : s.store.memory = task.memory) (haccess : s.store.access = task.access)
    (h : task.ExposedAccounts s taken left) :
    ∃ left, task.ExposedAccounts (task.exposedProduce s) taken left := by
  fun_cases SelectTask.exposedProduce task s with
  | case1 => exact ⟨left, h.scan, nofun, fun _ => .inl rfl, h.consumer⟩
  | case2 cursor hproducer page session hpage =>
    refine ⟨left, h.scan, fun hnone => ?_, fun hsome => ?_, h.consumer⟩
    · have hbehind := h.producer hnone
      rw [hproducer] at hbehind
      obtain ⟨hread, -⟩ := Session.undergoes_of_page hpage
      have hread : page = left.take task.plan.capacity := by
        rw [hread, ← page_of_behind hbehind, ← hmemory, ← haccess]
        rfl
      rw [hread]
      exact Ahead.read hcap hbehind _
    · have hfailed := h.failed hsome
      rw [hproducer] at hfailed
      rcases hfailed with hleft | hleft <;> cases hleft
  | case3 _ hquiet =>
    have hconsumer : task.Collected taken (task.produce s.toParties).consumer := by
      rw [consumer_produce]
      exact h.consumer
    cases hfailure : s.failure with
    | none =>
      obtain ⟨later, rfl, hahead⟩ := (h.producer hfailure).produce hcap
      refine ⟨later, ?_, fun _ => ?_, nofun, hconsumer⟩
      · show task.scan = taken ++ (task.produce s.toParties).channel ++ later
        rw [channel_produce, h.scan]
        simp only [List.append_assoc]
      · show task.Ahead later (task.produce s.toParties).stopped _
        rwa [stopped_produce]
    | some e =>
      have hfailed := h.failed (by rw [hfailure]; exact nofun)
      obtain ⟨⟨producer, channel, consumer, cancelled⟩, store, failure⟩ := s
      refine ⟨left, ?_, nofun, fun _ => .inr ?_, hconsumer⟩
      · rcases hfailed with rfl | rfl <;> exact h.scan
      · rcases hfailed with rfl | rfl <;> rfl

/-- A scan that has been made extends a row by what the store holds. -/
theorem extended_of_scan {row : Row} {step : ScanStep} {ts : List Triple} {session : Session}
    (hmemory : s.store.memory = task.memory)
    (hscan : Session.scan (step.pattern.lookup row) s.session = .ok ts session)
    (steps : List ScanStep) :
    (ts.filterMap (step.pattern.bind · row)).map (·, steps) = task.extended row step steps := by
  have hts : ts = s.store.memory.scan (step.pattern.lookup row) :=
    (Session.undergoes_of_scan hscan).1
  rw [hts, hmemory]
  rfl

/-- **A move of the join keeps the account.** -/
theorem ExposedAccounts.consume (hmemory : s.store.memory = task.memory)
    (h : task.ExposedAccounts s taken left) :
    ∃ taken, task.ExposedAccounts (task.exposedConsume s) taken left := by
  have hfailed : (task.exposedConsume s).failure ≠ none →
      (task.exposedConsume s).producer = .leaving ∨ (task.exposedConsume s).producer = .gone := by
    rw [failure_exposedConsume, producer_exposedConsume]
    exact h.failed
  -- whatever the join does, the scan is at most stopped by it
  have hproducer : (s.stopped = true → (task.exposedConsume s).stopped = true) →
      (task.exposedConsume s).failure = none →
      task.Ahead left (task.exposedConsume s).stopped (task.exposedConsume s).producer := by
    rw [failure_exposedConsume, producer_exposedConsume]
    exact fun hstop hnone => (h.producer hnone).mono hstop
  revert hfailed hproducer
  fun_cases SelectTask.exposedConsume task s with
  | case1 =>
    exact fun hfailed hproducer =>
      ⟨taken, h.scan, hproducer fun _ => Bool.or_true _, hfailed, trivial⟩
  | case2 =>
    exact fun hfailed hproducer =>
      ⟨taken, h.scan, hproducer fun _ => Bool.or_true _, hfailed, trivial⟩
  | case3 row step steps work c hconsumer hc ts session hscan extended =>
    intro hfailed hproducer
    have hextended : extended = task.extended row step steps :=
      extended_of_scan hmemory hscan steps
    have hcollected := h.consumer
    rw [hconsumer] at hcollected
    refine ⟨taken, h.scan, hproducer fun hstop => ?_, hfailed, ?_⟩
    · rw [Parties.stopped, hconsumer, Bool.or_eq_true] at hstop
      exact absurd (hstop.resolve_right Bool.false_ne_true) hc
    · show Collector.takeAll (task.rowsOf taken) (.ofPlan task.plan) = _
      rw [hextended, rowsAhead_extended]
      exact hcollected
  | case4 c hconsumer hgone =>
    intro hfailed hproducer
    have hcollected := h.consumer
    rw [hconsumer] at hcollected
    refine ⟨taken, h.scan, hproducer fun _ => Bool.or_true _, hfailed, ?_⟩
    obtain ⟨more, htake⟩ := hcollected
    show task.Collected taken (.returned (task.answerUnless s.failure c))
    cases s.failure with
    | none => exact ⟨more, c, rfl, htake⟩
    | some e => trivial
  | case5 => exact fun _ _ => ⟨taken, h⟩
  | case6 =>
    intro hfailed hproducer
    obtain ⟨taken', hchannel, hcollected⟩ := h.consumer.consume
    refine ⟨taken', ?_, hproducer stopped_consume, hfailed, hcollected⟩
    show task.scan = taken' ++ (task.consume s.toParties).channel ++ left
    rw [hchannel, h.scan]

/-- At the beginning the whole scan is left. -/
theorem exposedAccounts_start : task.ExposedAccounts (task.exposedStart fault) [] task.scan where
  scan := rfl
  producer _ := rfl
  failed h := absurd rfl h
  consumer := rfl

/-- Cancelling keeps the account. -/
theorem ExposedAccounts.cancel (h : task.ExposedAccounts s taken left) :
    task.ExposedAccounts (task.exposedMove s .cancel) taken left where
  scan := h.scan
  producer hnone := (h.producer hnone).stop
  failed := h.failed
  consumer := h.consumer

/-- **After any moves the first scan is accounted for.** -/
theorem exists_exposedAccounts_after (hcap : 0 < task.plan.capacity) (moves : List Move) :
    ∃ taken left, task.ExposedAccounts (task.exposedAfter fault moves) taken left := by
  induction moves using List.reverseRecOn with
  | nil => exact ⟨[], task.scan, exposedAccounts_start⟩
  | append_singleton moves move ih =>
    obtain ⟨taken, left, h⟩ := ih
    rw [exposedAfter_concat]
    cases move with
    | produce =>
      obtain ⟨left, h⟩ := h.produce hcap (memory_exposedAfter moves) (access_exposedAfter moves)
      exact ⟨taken, left, h⟩
    | consume =>
      obtain ⟨taken, h⟩ := h.consume (memory_exposedAfter moves)
      exact ⟨taken, left, h⟩
    | cancel => exact ⟨taken, left, h.cancel⟩

/-! ## Errors -/

/-- **A sound query gives up only because the run has been cancelled**, when its
join makes no request. -/
theorem cancelled_of_error {s : Parties} (hp : task.plan.Sound) (htaken : taken <+: task.scan)
    (hcollected : task.Collected taken s.consumer) (hnone : task.result? s.consumer = none)
    {e : ExecuteError} (h : task.result? (task.consume s).consumer = some (.error e)) :
    e = .cancelled ∧ s.cancelled = true := by
  obtain ⟨producer, channel, consumer, cancelled⟩ := s
  cases consumer with
  | looking c =>
    cases cancelled with
    | true =>
      cases h
      exact ⟨rfl, rfl⟩
    | false => cases h
  | receiving c =>
    cases channel with
    | cons t channel => cases h
    | nil => cases producer <;> cases h
  | extending work c =>
    have h : task.result? (task.extendNext cancelled c work) = some (.error e) := h
    have hcollected : Collector.takeAll (task.rowsOf taken) (.ofPlan task.plan)
      = Collector.takeAll (task.rowsAhead work) c := hcollected
    obtain ⟨more, c', htake, -⟩ := takeAll_rowsOf hp htaken
    rw [htake] at hcollected
    cases work with
    | nil => cases h
    | cons head work =>
      obtain ⟨row, steps⟩ := head
      cases steps with
      | cons step steps =>
        cases cancelled with
        | true =>
          cases h
          exact ⟨rfl, rfl⟩
        | false => cases h
      | nil =>
        -- a row of a sound query has a node for every column
        rw [rowsAhead_complete, Collector.takeAll_cons] at hcollected
        simp only [SelectTask.extendNext] at h
        cases hpush : c.push row with
        | error e' =>
          rw [hpush] at hcollected
          cases hcollected
        | ok result =>
          obtain ⟨wanted, c₁⟩ := result
          rw [hpush] at h
          cases wanted <;> cases h
  | closing result => cases hnone
  | returned result => cases hnone

/-- **An error has a reason**, whatever the order of the moves is. -/
theorem blamed_of_error (hp : task.plan.Sound) {e : ExecuteError}
    (h : task.result? (task.exposedAfter fault moves).consumer = some (.error e)) :
    task.Blamed fault moves e := by
  induction moves using List.reverseRecOn with
  | nil => cases h
  | append_singleton moves move ih =>
    rw [exposedAfter_concat] at h
    cases move with
    | cancel => exact (ih h).concat _
    | produce =>
      rw [exposedMove, consumer_exposedProduce] at h
      exact (ih h).concat _
    | consume =>
      refine Blamed.concat ?_ _
      obtain ⟨taken, left, haccounts⟩ :
          ∃ taken left, task.ExposedAccounts (task.exposedAfter fault moves) taken left :=
        exists_exposedAccounts_after hp.capacity_pos moves
      have hendures : task.Endures fault moves (task.exposedAfter fault moves).session :=
        endures_exposedAfter moves
      have hfailure : ∀ e, (task.exposedAfter fault moves).failure = some e →
          task.Blamed fault moves (.store e) := fun _ => blamed_of_failure
      rw [exposedMove] at h
      generalize task.exposedAfter fault moves = s at *
      revert h
      fun_cases SelectTask.exposedConsume task s with
      | case1 row step steps work c hconsumer hc =>
        intro h
        cases h
        exact hendures.cancelled hc
      | case2 row step steps work c hconsumer hc e' session hscan =>
        intro h
        cases h
        exact hendures.blamed (Session.dueTo_of_scan hscan).2
      | case3 => exact nofun
      | case4 c hconsumer hgone =>
        show some (task.answerUnless s.failure c) = some (.error e) → _
        cases hfailed : s.failure with
        | none => exact nofun
        | some e' =>
          intro h
          cases h
          exact hfailure e' hfailed
      | case5 => exact ih
      | case6 =>
        intro h
        cases hbefore : task.result? s.consumer with
        | none =>
          have hprefix : taken <+: task.scan :=
            ⟨s.channel ++ left, by rw [haccounts.scan, List.append_assoc]⟩
          obtain ⟨rfl, hc⟩ := cancelled_of_error hp hprefix haccounts.consumer hbefore h
          exact hendures.cancelled hc
        | some earlier =>
          have hsame := (result?_consume hbefore).symm.trans h
          rw [hsame] at hbefore
          exact ih hbefore

/-! ## Who looked when -/

/-- A join comes to the channel only by looking at the run. -/
theorem looking_of_exposedConsume {c : Collector}
    (h : (task.exposedConsume s).consumer = .receiving c) :
    s.consumer = .looking c ∧ s.cancelled = false := by
  revert h
  fun_cases SelectTask.exposedConsume task s with
  | case5 c' hconsumer =>
    intro h
    rw [hconsumer] at h
    cases h
  | case6 => exact looking_of_receiving
  | _ => exact nofun

/-- **A join that is at the channel has looked at the run before**, when the run
was not cancelled, and has not moved since. -/
theorem exists_exposed_look {c : Collector}
    (h : (task.exposedAfter fault moves).consumer = .receiving c) :
    ∃ before between, moves = before ++ .consume :: between
      ∧ (task.exposedAfter fault before).consumer = .looking c
      ∧ (task.exposedAfter fault before).cancelled = false ∧ .consume ∉ between := by
  -- the last move is that look, or it is not the join's and changes nothing here
  induction moves using List.reverseRecOn with
  | nil => cases h
  | append_singleton moves move ih =>
    rw [exposedAfter_concat] at h
    have hsame : (task.exposedAfter fault moves).consumer = .receiving c → move ≠ .consume →
        ∃ before between, moves ++ [move] = before ++ .consume :: between
          ∧ (task.exposedAfter fault before).consumer = .looking c
          ∧ (task.exposedAfter fault before).cancelled = false ∧ .consume ∉ between := by
      intro h hmove
      obtain ⟨before, between, rfl, hlook, hbefore, hbetween⟩ := ih h
      refine ⟨before, between ++ [move], by simp, hlook, hbefore, ?_⟩
      rw [List.mem_append, List.mem_singleton, not_or]
      exact ⟨hbetween, hmove.symm⟩
    cases move with
    | produce => exact hsame (by rwa [exposedMove, consumer_exposedProduce] at h) Move.noConfusion
    | cancel => exact hsame h Move.noConfusion
    | consume =>
      obtain ⟨hlook, hfree⟩ := looking_of_exposedConsume h
      exact ⟨moves, [], rfl, hlook, hfree, List.not_mem_nil⟩

/-- A page that cancels the run has met a fault that does. -/
theorem threatens_of_exposedProduce (hfree : s.cancelled = false)
    (h : (task.exposedProduce s).cancelled = true) : s.session.Threatens .page .cancel := by
  have hask : ∀ after : Option Triple,
      (SessionM.behind (Session.page task.lookup after task.plan.capacity)
        s.session).cancelled = true → s.session.Threatens .page .cancel :=
    fun _ h => Session.threatens_of_ask _ hfree h
  revert h
  fun_cases SelectTask.exposedProduce task s with
  | case1 after hproducer e session hpage =>
    refine fun h => hask after ?_
    rwa [SessionM.behind, hpage]
  | case2 after hproducer page session hpage =>
    refine fun h => hask after ?_
    rwa [SessionM.behind, hpage]
  | case3 =>
    intro h
    have h : (task.produce s.toParties).cancelled = true := h
    rw [cancelled_produce, hfree] at h
    cases h

/-- **Who has cancelled the run while the join did not move**: somebody, or a fault
that was in wait for a page. -/
theorem cancel_mem_or_threatens (hconsume : .consume ∉ moves) (hfree : s.cancelled = false)
    (h : (moves.foldl task.exposedMove s).cancelled = true) :
    .cancel ∈ moves ∨ s.session.Threatens .page .cancel := by
  induction moves generalizing s with
  | nil => exact absurd h (by simp [hfree])
  | cons move moves ih =>
    rw [List.mem_cons, not_or] at hconsume
    cases move with
    | cancel => exact .inl List.mem_cons_self
    | consume => exact absurd rfl hconsume.1
    | produce =>
      cases hnext : (task.exposedProduce s).cancelled with
      | true => exact .inr (threatens_of_exposedProduce hfree hnext)
      | false =>
        refine (ih hconsume.2 hnext h).imp (List.mem_cons_of_mem _) ?_
        exact (undergoes_exposedProduce s).threatens _ _

/-! ## Answers that are not complete -/

variable (task fault) in
/-- **The run was called off between two looks of the join**, the one at the run
and the one into the channel, by somebody or by a page that the first scan read,
and the channel was closed by then. -/
def CalledOffBetweenLooks (moves : List Move) : Prop :=
  ∃ before between later c, moves = before ++ .consume :: between ++ .consume :: later
    ∧ (task.exposedAfter fault before).consumer = .looking c
    ∧ (task.exposedAfter fault before).cancelled = false
    ∧ .consume ∉ between ∧ (.cancel ∈ between ∨ (task.session fault).Threatens .page .cancel)
    ∧ (task.exposedAfter fault (before ++ .consume :: between)).cancelled = true
    ∧ (task.exposedAfter fault (before ++ .consume :: between)).channel = []
    ∧ (task.exposedAfter fault (before ++ .consume :: between)).producer = .gone

theorem CalledOffBetweenLooks.concat (h : task.CalledOffBetweenLooks fault moves) (move : Move) :
    task.CalledOffBetweenLooks fault (moves ++ [move]) := by
  obtain ⟨before, between, later, c, rfl, h⟩ := h
  exact ⟨before, between, later ++ [move], c, by simp, h⟩

variable (task fault moves) in
/-- **What can be answered**: the complete answer, or that to a front part of the
first scan if the run was called off between two looks. -/
def Answers (table : Table) : Prop :=
  table = task.plan.fullAnswer task.memory
    ∨ task.CalledOffBetweenLooks fault moves
      ∧ ∃ sent left, task.scan = sent ++ left ∧ left ≠ [] ∧ table = task.answerTo sent

theorem Answers.concat {table : Table} (h : task.Answers fault moves table) (move : Move) :
    task.Answers fault (moves ++ [move]) table :=
  h.imp_right (And.imp_left fun h => h.concat move)

/-- **The join leaves its loop with an answer** only if that can be answered. -/
theorem answers_of_leave (hp : task.plan.Sound) {table : Table}
    (hfailure : (task.exposedAfter fault moves).failure = none)
    (hnone : task.result? (task.exposedAfter fault moves).consumer = none)
    (hsome : task.result? (task.consume (task.exposedAfter fault moves).toParties).consumer
      = some (.ok table)) :
    task.Answers fault (moves ++ [.consume]) table := by
  obtain ⟨taken, left, hscan, hahead, -, hcollected⟩ :
      ∃ taken left, task.ExposedAccounts (task.exposedAfter fault moves) taken left :=
    exists_exposedAccounts_after hp.capacity_pos moves
  rcases leave_cases hnone hsome with ⟨work, c, hconsumer, c', rfl, htake⟩ |
    ⟨c, hconsumer, rfl, hchannel, hgone⟩
  · rw [hconsumer] at hcollected
    have hfull : Collector.takeAll (task.rowsOf taken) (.ofPlan task.plan) = .ok (false, c') :=
      Eq.trans hcollected htake
    exact .inl (answerTo_eq_of_full hp (hscan.trans (List.append_assoc ..)) hfull)
  · rw [hconsumer] at hcollected
    rw [hchannel, List.append_nil] at hscan
    obtain ⟨more, c', htake, hanswer⟩ := takeAll_rowsOf hp ⟨left, hscan.symm⟩
    have hc : c' = c := by
      have heq := htake.symm.trans hcollected
      cases heq
      rfl
    rw [← hc, hanswer]
    by_cases hleft : left = []
    · rw [hleft, List.append_nil] at hscan
      rw [← hscan, answerTo_scan]
      exact .inl rfl
    · refine .inr ⟨?_, taken, left, hscan, hleft, rfl⟩
      obtain ⟨front, between, rfl, hlook, hfree, hbetween⟩ := exists_exposed_look hconsumer
      -- a scan that was neither stopped nor has failed would have left nothing
      have hcancelled : (task.exposedAfter fault (front ++ .consume :: between)).cancelled
          = true := by
        by_contra hnot
        rw [hgone] at hahead
        refine hleft (hahead hfailure ?_)
        rw [Parties.stopped, hconsumer, Bool.eq_false_iff.mpr hnot]
        rfl
      have hlooked : (task.exposedAfter fault (front ++ [.consume])).cancelled = false := by
        rw [exposedAfter_concat]
        show (task.exposedConsume _).cancelled = false
        rw [exposedConsume, hlook]
        show (task.consume _).cancelled = false
        rw [cancelled_consume, hfree]
      have hcause : .cancel ∈ between ∨ (task.session fault).Threatens .page .cancel := by
        rw [← List.singleton_append, ← List.append_assoc, exposedAfter_append] at hcancelled
        refine (cancel_mem_or_threatens hbetween hlooked hcancelled).imp_right ?_
        exact (endures_exposedAfter _).threatens _ _
      exact ⟨front, between, [], c, rfl, hlook, hfree, hbetween, hcause, hcancelled, hchannel,
        hgone⟩

/-- A join that returns has left its loop before. -/
theorem result?_of_returned {s : Parties} {result : Except ExecuteError Table}
    (h : (task.consume s).consumer = .returned result) :
    task.result? s.consumer = some result := by
  obtain ⟨producer, channel, consumer, cancelled⟩ := s
  cases consumer with
  | looking c => cases cancelled <;> cases h
  | receiving c =>
    cases channel with
    | cons t channel => cases h
    | nil => cases producer <;> cases h
  | extending work c =>
    have h : task.extendNext cancelled c work = .returned result := h
    revert h
    fun_cases SelectTask.extendNext task cancelled c work <;> intro h <;> cases h
  | closing r =>
    cases producer with
    | gone =>
      cases h
      rfl
    | _ => cases h
  | returned r =>
    cases h
    rfl

/-- **Whatever is answered, can be answered.** -/
theorem answers_of_returned (hp : task.plan.Sound) {table : Table}
    (h : (task.exposedAfter fault moves).consumer = .returned (.ok table)
      ∨ (task.exposedAfter fault moves).failure = none
        ∧ ∃ c, (task.exposedAfter fault moves).consumer = .closing (.ok c)
          ∧ task.plan.answer c = table) :
    task.Answers fault moves table := by
  -- the join leaves its loop with the answer, and only a failure can keep it back
  induction moves using List.reverseRecOn with
  | nil => rcases h with h | ⟨-, c, h, -⟩ <;> cases h
  | append_singleton moves move ih =>
    have hleave := @answers_of_leave task fault moves hp table
    rw [exposedAfter_concat] at h
    cases move with
    | cancel => exact (ih h).concat _
    | produce =>
      rw [exposedMove, consumer_exposedProduce] at h
      refine (ih (h.imp_right (And.imp_left fun hnone => ?_))).concat _
      rcases task.failure_exposedProduce (task.exposedAfter fault moves) with
        hsame | ⟨e, hnew, -⟩
      · exact hsame.symm.trans hnone
      · cases hnew.symm.trans hnone
    | consume =>
      rw [exposedMove, failure_exposedConsume] at h
      generalize task.exposedAfter fault moves = s at *
      revert h
      fun_cases SelectTask.exposedConsume task s with
      | case1 => rintro (h | ⟨-, c, h, -⟩) <;> cases h
      | case2 => rintro (h | ⟨-, c, h, -⟩) <;> cases h
      | case3 => rintro (h | ⟨-, c, h, -⟩) <;> cases h
      | case4 c hconsumer hgone =>
        rintro (h | ⟨-, c, h, -⟩)
        · have h : task.answerUnless s.failure c = .ok table := Consumer.returned.inj h
          cases hfailure : s.failure with
          | some e =>
            rw [hfailure] at h
            cases h
          | none =>
            rw [hfailure] at h
            exact (ih (.inr ⟨hfailure, c, hconsumer, Except.ok.inj h⟩)).concat _
        · cases h
      | case5 => exact fun h => (ih h).concat _
      | case6 _ hscan hclosing =>
        intro h
        cases hbefore : task.result? s.consumer with
        | none =>
          rcases h with h | ⟨hfailure, c, h, rfl⟩
          · cases (result?_of_returned h).symm.trans hbefore
          · refine hleave hfailure hbefore ?_
            have h : (task.consume s.toParties).consumer = .closing (.ok c) := h
            rw [h]
            rfl
        | some earlier =>
          have hresult : task.result? (task.consume s.toParties).consumer
              = some (.ok table) := by
            rcases h with h | ⟨-, c, h, rfl⟩
            · exact congrArg task.result? h
            · exact congrArg task.result? h
          rw [result?_consume hbefore] at hresult
          rw [hresult] at hbefore
          cases hconsumer : s.consumer with
          | closing result =>
            rw [hconsumer] at hbefore
            cases result with
            | error e => cases hbefore
            | ok c => exact absurd hconsumer (hclosing c)
          | returned result =>
            rw [hconsumer] at hbefore
            obtain rfl := Option.some.inj hbefore
            exact (ih (.inl hconsumer)).concat _
          | _ =>
            rw [hconsumer] at hbefore
            cases hbefore

/-! ## Without faults -/

variable (task) in
/-- The parties when no fault is in wait. -/
def unexposed (s : Parties) : ExposedParties :=
  within ⟨(task.session []).store, s.cancelled⟩ s.producer s.channel s.consumer none

/-- Without faults a request gives what the store holds, and so a move is that of
`SelectTask.move`. -/
theorem exposedMove_unexposed (s : Parties) (move : Move) :
    task.exposedMove (task.unexposed s) move = task.unexposed (task.move s move) := by
  obtain ⟨producer, channel, consumer, cancelled⟩ := s
  cases move with
  | cancel => rfl
  | produce =>
    cases producer with
    | reading after =>
      refine (task.exposedProduce_page after channel consumer
        ⟨(task.session []).store, cancelled⟩).trans ?_
      rw [Session.page, Session.ask_of_fault_eq_nil rfl]
      rfl
    | _ => rfl
  | consume =>
    cases consumer with
    | extending work c =>
      cases work with
      | nil => rfl
      | cons head work =>
        obtain ⟨row, steps⟩ := head
        cases steps with
        | nil => rfl
        | cons step steps =>
          refine (task.exposedConsume_scan ..).trans ?_
          rw [Session.scan, Session.ask_of_fault_eq_nil rfl]
          cases cancelled <;> rfl
    | closing result =>
      cases result with
      | error e => rfl
      | ok c => cases producer <;> rfl
    | _ => rfl

/-- **Without faults the orders are those of `SelectTask.after`.** -/
theorem exposedAfter_nil (moves : List Move) :
    task.exposedAfter [] moves = task.unexposed (task.after moves) := by
  induction moves using List.reverseRecOn with
  | nil => rfl
  | append_singleton moves move ih =>
    rw [exposedAfter_concat, ih, exposedMove_unexposed, after_append]
    rfl

end SelectTask

end TripleScript
