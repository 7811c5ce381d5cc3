import TripleScript.Proofs.Plan.Sound
import TripleScript.Select.Interleaving

/-!
# What interleavings can do to an answer

Whatever the order of the moves is, no triple of the first scan is lost or
taken twice: the scan is what the join has taken, then what is in the
channel, then what has not been handed on (`SelectTask.Accounts`). What the
first scan does in a move is its `Deed`; what it sends is what the channel
gets, and it comes from the front of what is left (`Ahead.produce`). An answer
therefore is the answer to a front part of the scan.

It need not be the complete one. A scan that has been stopped closes the
channel in the same way as one that has come to its end. The join looks
whether the run has been cancelled before it looks into the channel, so it
knows the difference – unless the run is cancelled between these two looks.
`complete_or_cancelledBetweenLooks` says that this is the only way in which a
row can be missing. Whether it happens is another question: every front part
of the scan can be the one that is answered (`exists_answer_iff`).
-/

namespace TripleScript

/-! ## What the scan does -/

/-- What the first scan does in one move. -/
inductive Deed where
  /-- It reads this page. -/
  | reads (page : List Triple)
  /-- It puts this triple into the channel. -/
  | sends (t : Triple)
  /-- It finds no room in the channel. -/
  | waits
  /-- It looks whether it has been stopped, is through with a page, or leaves. -/
  | goesOn
deriving DecidableEq, Repr

namespace Deed

/-- The page that is read. -/
def page? : Deed → Option (List Triple)
  | reads page => some page
  | _ => none

/-- The triple that is put into the channel. -/
def sent? : Deed → Option Triple
  | sends t => some t
  | _ => none

end Deed

namespace SelectTask

variable (task : SelectTask)

/-- What the first scan does if the next move is its own. -/
def deed (s : Parties) : Deed :=
  match s.producer with
  | .reading after =>
    .reads (task.memory.page task.access task.lookup after task.plan.capacity)
  | .sending t _ _ _ =>
    if s.consumer.hasLeft then .goesOn
    else if s.channel.length < task.plan.capacity then .sends t
    else .waits
  | _ => .goesOn

variable {task}

/-- **The channel gets what is sent**, and nothing else. -/
theorem channel_produce (s : Parties) :
    (task.produce s).channel = s.channel ++ (task.deed s).sent?.toList := by
  obtain ⟨producer, channel, consumer, cancelled⟩ := s
  cases producer with
  | sending t page last full =>
    simp only [produce, deed]
    split
    case isTrue => exact (List.append_nil _).symm
    case isFalse =>
      split
      case isTrue => rfl
      case isFalse => exact (List.append_nil _).symm
  | looking page last full => cases page <;> exact (List.append_nil _).symm
  | _ => exact (List.append_nil _).symm

@[simp] theorem consumer_produce (s : Parties) : (task.produce s).consumer = s.consumer := by
  fun_cases SelectTask.produce task s <;> rfl

@[simp] theorem cancelled_produce (s : Parties) : (task.produce s).cancelled = s.cancelled := by
  fun_cases SelectTask.produce task s <;> rfl

/-- A move of the scan neither stops it nor lets it go on. -/
theorem stopped_produce (s : Parties) : (task.produce s).stopped = s.stopped := by
  simp only [Parties.stopped, cancelled_produce, consumer_produce]

/-! ## The triples of the scan and their rows -/

variable (task)

/-- The triples of the first scan. -/
def scan : List Triple :=
  task.memory.scan task.lookup

/-- The rows that some triples of the first scan lead to. -/
def rowsOf (ts : List Triple) : List Row :=
  task.plan.joined task.first task.rest task.memory ts

/-- **The answer to some triples of the first scan.** -/
def answerTo (ts : List Triple) : Table where
  columns := task.plan.columns
  rows := shape task.plan.distinct task.plan.limit
    ((task.rowsOf ts).map fun row => readOff task.plan.projection row.nodes)

/-- The rows that are still to be extended. -/
def rowsAhead (work : List (Row × List ScanStep)) : List Row :=
  work.flatMap fun (row, steps) => completions task.memory steps row

variable {task}

/-- The rows of the whole scan are those of the nested loop. -/
theorem rowsOf_scan : task.rowsOf task.scan
    = completions task.memory task.plan.steps (Row.empty task.plan.slotCount) := by
  rw [task.steps_eq]
  rfl

/-- **The answer to the whole scan is the complete one.** -/
theorem answerTo_scan : task.answerTo task.scan = task.plan.fullAnswer task.memory := by
  unfold answerTo SelectPlan.fullAnswer SelectPlan.allRows solutions
  rw [rowsOf_scan, List.map_map]
  rfl

theorem rowsOf_append (ts us : List Triple) :
    task.rowsOf (ts ++ us) = task.rowsOf ts ++ task.rowsOf us :=
  task.plan.joined_append task.first task.rest task.memory ts us

/-- **Collecting the rows of a front part of the scan** makes its answer. -/
theorem takeAll_rowsOf (hp : task.plan.Sound) {ts : List Triple} (hts : ts <+: task.scan) :
    ∃ more c, Collector.takeAll (task.rowsOf ts) (.ofPlan task.plan) = .ok (more, c)
      ∧ task.plan.answer c = task.answerTo ts := by
  obtain ⟨behind, hbehind⟩ := hts
  have hrows : ∀ row ∈ task.rowsOf ts, (Collector.ofPlan task.plan).project? row
      = some (readOff task.plan.projection row.nodes) := by
    intro row hrow
    refine hp.project?_completion (m := task.memory) ?_
    rw [← rowsOf_scan, ← hbehind, rowsOf_append]
    exact List.mem_append_left _ hrow
  obtain ⟨more, htake⟩ := Collector.takeAll_holding [] hrows
  rw [← Collector.ofPlan_eq_holding] at htake
  exact ⟨more, _, htake, rfl⟩

/-- **A full collector has the complete answer**, however little of the scan
it has seen. -/
theorem answerTo_eq_of_full (hp : task.plan.Sound) {ts behind : List Triple}
    {c : Collector} (hscan : task.scan = ts ++ behind)
    (hfull : Collector.takeAll (task.rowsOf ts) (.ofPlan task.plan) = .ok (false, c)) :
    task.plan.answer c = task.plan.fullAnswer task.memory := by
  obtain ⟨more, c', htake, hanswer⟩ := takeAll_rowsOf hp (List.prefix_refl task.scan)
  rw [hscan, rowsOf_append, Collector.takeAll_append, hfull] at htake
  cases htake
  rw [hanswer, answerTo_scan]

/-! ## Nothing is lost -/

variable (task) in
/-- What is left of the scan behind a cursor. -/
def Behind (left : List Triple) : Option Triple → Prop
  | none => left = task.scan
  | some t => ∃ front, task.scan = front ++ t :: left

variable (task) in
/-- What the first scan has not handed on yet: a page that it holds and what
comes behind that. If it has left without being stopped, nothing. -/
def Ahead (left : List Triple) (stopped : Bool) : Producer → Prop
  | .reading cursor => task.Behind left cursor
  | .looking page last full => ∃ behind, left = page ++ behind
      ∧ (full = false → behind = []) ∧ (full = true → task.Behind behind last)
  | .sending t page last full => ∃ behind, left = t :: page ++ behind
      ∧ (full = false → behind = []) ∧ (full = true → task.Behind behind last)
  | .leaving => stopped = false → left = []
  | .gone => stopped = false → left = []

variable (task) in
/-- What the join has made of the triples it has taken. -/
def Collected (taken : List Triple) : Consumer → Prop
  | .looking c => Collector.takeAll (task.rowsOf taken) (.ofPlan task.plan) = .ok (true, c)
  | .receiving c => Collector.takeAll (task.rowsOf taken) (.ofPlan task.plan) = .ok (true, c)
  | .extending work c => Collector.takeAll (task.rowsOf taken) (.ofPlan task.plan)
      = Collector.takeAll (task.rowsAhead work) c
  | .closing (.ok c) =>
      ∃ more, Collector.takeAll (task.rowsOf taken) (.ofPlan task.plan) = .ok (more, c)
  | .returned (.ok table) => ∃ more c, task.plan.answer c = table
      ∧ Collector.takeAll (task.rowsOf taken) (.ofPlan task.plan) = .ok (more, c)
  | _ => True

variable (task) in
/-- **The first scan is accounted for**: it is what the join has taken, then
what is in the channel, then what is left. -/
structure Accounts (s : Parties) (taken left : List Triple) : Prop where
  /-- No triple is lost, and none comes twice. -/
  scan : task.scan = taken ++ s.channel ++ left
  /-- The scan knows what is left. -/
  producer : task.Ahead left s.stopped s.producer
  /-- The join has used what it has taken. -/
  consumer : task.Collected taken s.consumer

variable {s : Parties} {taken left : List Triple}

/-- At the beginning the whole scan is left. -/
theorem accounts_start : task.Accounts task.start [] task.scan where
  scan := rfl
  producer := rfl
  consumer := rfl

/-- A scan that is stopped later knows no less. -/
theorem Ahead.stop {producer : Producer} {stopped : Bool}
    (h : task.Ahead left stopped producer) : task.Ahead left true producer := by
  cases producer with
  | leaving => exact fun hc => by cases hc
  | gone => exact fun hc => by cases hc
  | _ => exact h

/-- What a scan knows that has been stopped meanwhile or not. -/
theorem Ahead.mono {producer : Producer} {stopped stopped' : Bool}
    (h : task.Ahead left stopped producer) (hstop : stopped = true → stopped' = true) :
    task.Ahead left stopped' producer := by
  cases stopped' with
  | true => exact h.stop
  | false =>
    have hfree : stopped = false := Bool.eq_false_iff.mpr (mt hstop Bool.false_ne_true)
    exact hfree ▸ h

/-- The page behind a cursor is the next piece of what is left. -/
theorem page_of_behind {cursor : Option Triple} (h : task.Behind left cursor) :
    task.memory.page task.access task.lookup cursor task.plan.capacity
      = left.take task.plan.capacity := by
  cases cursor with
  | none =>
    obtain rfl : left = task.scan := h
    exact task.memory.page_none task.access task.lookup task.plan.capacity
  | some t =>
    obtain ⟨front, hfront⟩ := h
    exact MemoryStore.page_of_scan_eq_append task.access task.plan.capacity hfront

/-- What is left behind a cursor is the end of the scan. -/
theorem Behind.suffix {cursor : Option Triple} (h : task.Behind left cursor) :
    left <:+ task.scan := by
  cases cursor with
  | none =>
    obtain rfl : left = task.scan := h
    exact List.suffix_refl _
  | some t =>
    obtain ⟨front, hfront⟩ := h
    exact ⟨front ++ [t], by rw [hfront, List.append_assoc, List.singleton_append]⟩

/-- **Reading a page** keeps what is left, and the last triple of a full page
is the cursor for the next. -/
theorem Ahead.read (hcap : 0 < task.plan.capacity) {cursor : Option Triple}
    (h : task.Behind left cursor) (stopped : Bool) :
    task.Ahead left stopped (.looking (left.take task.plan.capacity)
      (left.take task.plan.capacity).getLast?
      (task.plan.capacity ≤ (left.take task.plan.capacity).length)) := by
  refine ⟨left.drop task.plan.capacity, (List.take_append_drop _ left).symm, ?_, ?_⟩
  · intro hfull
    rw [decide_eq_false_iff_not, List.length_take] at hfull
    exact List.drop_of_length_le (by omega)
  · intro hfull
    rw [decide_eq_true_eq] at hfull
    have hne : left.take task.plan.capacity ≠ [] := fun hnil => by
      rw [hnil, List.length_nil] at hfull
      omega
    rw [List.getLast?_eq_some_getLast hne]
    obtain ⟨front, hfront⟩ := h.suffix
    refine ⟨front ++ (left.take task.plan.capacity).dropLast, ?_⟩
    have hsplit := List.dropLast_append_getLast hne
    rw [← hfront]
    conv_lhs => rw [← List.take_append_drop task.plan.capacity left, ← hsplit]
    simp only [List.append_assoc, List.singleton_append]

/-- **A move of the scan takes what it sends from the front** of what is left. -/
theorem Ahead.produce (hcap : 0 < task.plan.capacity)
    (h : task.Ahead left s.stopped s.producer) :
    ∃ later, left = (task.deed s).sent?.toList ++ later
      ∧ task.Ahead later s.stopped (task.produce s).producer := by
  obtain ⟨producer, channel, consumer, cancelled⟩ := s
  cases producer with
  | reading cursor =>
    refine ⟨left, rfl, ?_⟩
    simp only [SelectTask.produce, page_of_behind h]
    exact Ahead.read hcap h _
  | looking page last full =>
    obtain ⟨behind, hleft, hlast, hmore⟩ := h
    refine ⟨left, rfl, ?_⟩
    cases page with
    | nil =>
      obtain rfl : left = behind := hleft
      cases full with
      | true => exact hmore rfl
      | false => exact fun _ => hlast rfl
    | cons t page =>
      simp only [SelectTask.produce]
      split
      case isTrue hstopped => exact fun hc => Bool.noConfusion (hstopped.symm.trans hc)
      case isFalse => exact ⟨behind, hleft, hlast, hmore⟩
  | sending t page last full =>
    obtain ⟨behind, hleft, hlast, hmore⟩ := h
    simp only [SelectTask.produce, SelectTask.deed]
    split
    case isTrue hgone =>
      refine ⟨left, rfl, fun hc => ?_⟩
      simp only [Parties.stopped, hgone, Bool.or_true] at hc
      cases hc
    case isFalse =>
      split
      case isTrue => exact ⟨page ++ behind, hleft, behind, rfl, hlast, hmore⟩
      case isFalse => exact ⟨left, rfl, behind, hleft, hlast, hmore⟩
  | leaving => exact ⟨left, rfl, h⟩
  | gone => exact ⟨left, rfl, h⟩

/-- **A move of the scan keeps the account**: what it takes from what is left
is what the channel gets. -/
theorem Accounts.produce (hcap : 0 < task.plan.capacity)
    (h : task.Accounts s taken left) : ∃ left, task.Accounts (task.produce s) taken left := by
  obtain ⟨later, rfl, hahead⟩ := h.producer.produce hcap
  refine ⟨later, ?_, ?_, ?_⟩
  · rw [channel_produce, h.scan]
    simp only [List.append_assoc]
  · rwa [stopped_produce]
  · rw [consumer_produce]
    exact h.consumer

/-- A triple of the first scan begins the rows it leads to. -/
theorem rowsAhead_begun (t : Triple) : task.rowsAhead (task.begun t) = task.rowsOf [t] := by
  have hrows : task.rowsOf [t] = (task.first.pattern.bind t
      (Row.empty task.plan.slotCount)).elim [] (completions task.memory task.rest) :=
    List.flatMap_singleton _ _
  rw [hrows, begun]
  cases task.first.pattern.bind t (Row.empty task.plan.slotCount) with
  | none => rfl
  | some row => exact List.flatMap_singleton _ _

variable (task) in
/-- Extending a row by a scan leads to its completions. -/
theorem rowsAhead_extended (row : Row) (step : ScanStep) (steps : List ScanStep)
    (work : List (Row × List ScanStep)) :
    task.rowsAhead (task.extended row step steps ++ work)
      = task.rowsAhead ((row, step :: steps) :: work) := by
  have hscan : ∀ ts : List Triple, task.rowsAhead ((ts.filterMap (step.pattern.bind · row)).map
      (·, steps)) = through step.pattern row (completions task.memory steps) ts := by
    intro ts
    induction ts with
    | nil => rfl
    | cons t ts ih =>
      rw [List.filterMap_cons, through, List.flatMap_cons]
      cases step.pattern.bind t row with
      | none => exact ih
      | some r =>
        rw [List.map_cons, rowsAhead, List.flatMap_cons]
        exact congrArg (completions task.memory steps r ++ ·) ih
  rw [rowsAhead, List.flatMap_append, ← rowsAhead, extended, hscan]
  rfl

/-- A row without a scan left is the next row. -/
theorem rowsAhead_complete (row : Row) (work : List (Row × List ScanStep)) :
    task.rowsAhead ((row, []) :: work) = row :: task.rowsAhead work :=
  rfl

/-- **Extending rows keeps what has been collected** and what is ahead. -/
theorem Collected.extendNext {work : List (Row × List ScanStep)} {c : Collector}
    (h : task.Collected taken (.extending work c)) (cancelled : Bool) :
    task.Collected taken (task.extendNext cancelled c work) := by
  have h : Collector.takeAll (task.rowsOf taken) (.ofPlan task.plan)
      = Collector.takeAll (task.rowsAhead work) c := h
  cases work with
  | nil => exact h
  | cons head work =>
    obtain ⟨row, steps⟩ := head
    cases steps with
    | nil =>
      rw [rowsAhead_complete, Collector.takeAll_cons] at h
      simp only [SelectTask.extendNext]
      cases hrow : c.push row with
      | error e => trivial
      | ok result =>
        obtain ⟨more, c'⟩ := result
        rw [hrow] at h
        cases more with
        | true => exact h
        | false => exact ⟨false, h⟩
    | cons step steps =>
      unfold SelectTask.extendNext
      cases cancelled with
      | true => trivial
      | false => exact h.trans (congrArg (Collector.takeAll · c) (rowsAhead_extended task ..).symm)

/-- **A move of the join makes use of what it takes**: that is the oldest triple
of the channel or none. -/
theorem Collected.consume (h : task.Collected taken s.consumer) :
    ∃ taken', taken' ++ (task.consume s).channel = taken ++ s.channel
      ∧ task.Collected taken' (task.consume s).consumer := by
  obtain ⟨producer, channel, consumer, cancelled⟩ := s
  cases consumer with
  | looking c =>
    refine ⟨taken, rfl, ?_⟩
    cases cancelled with
    | true => trivial
    | false => exact h
  | receiving c =>
    cases channel with
    | nil =>
      refine ⟨taken, rfl, ?_⟩
      simp only [SelectTask.consume]
      cases producer.isGone with
      | true => exact ⟨true, h⟩
      | false => exact h
    | cons t channel =>
      refine ⟨taken ++ [t], List.append_assoc .., ?_⟩
      have h : Collector.takeAll (task.rowsOf taken) (.ofPlan task.plan) = .ok (true, c) := h
      show Collector.takeAll (task.rowsOf (taken ++ [t])) _ = _
      rw [rowsOf_append, Collector.takeAll_append, h, rowsAhead_begun]
  | extending work c => exact ⟨taken, rfl, h.extendNext cancelled⟩
  | closing result =>
    refine ⟨taken, ?_, ?_⟩
    · simp only [SelectTask.consume]
      split <;> rfl
    · simp only [SelectTask.consume]
      split
      case isFalse => exact h
      case isTrue =>
        cases result with
        | error e => trivial
        | ok c =>
          obtain ⟨more, htake⟩ := h
          exact ⟨more, c, rfl, htake⟩
  | returned result => exact ⟨taken, rfl, h⟩

@[simp] theorem cancelled_consume (s : Parties) : (task.consume s).cancelled = s.cancelled := by
  fun_cases SelectTask.consume task s <;> rfl

@[simp] theorem producer_consume (s : Parties) : (task.consume s).producer = s.producer := by
  fun_cases SelectTask.consume task s <;> rfl

/-- A join that has left its loop does not come back. -/
theorem hasLeft_consume (h : s.consumer.hasLeft = true) :
    (task.consume s).consumer.hasLeft = true := by
  obtain ⟨producer, channel, consumer, cancelled⟩ := s
  cases consumer with
  | closing result =>
    simp only [SelectTask.consume]
    split <;> rfl
  | returned result => rfl
  | _ => cases h

/-- A scan that has been stopped stays so. -/
theorem stopped_consume (h : s.stopped = true) : (task.consume s).stopped = true := by
  rw [Parties.stopped, Bool.or_eq_true] at h ⊢
  rw [cancelled_consume]
  exact h.imp_right hasLeft_consume

/-- The join takes the oldest triple of the channel or none. -/
theorem channel_consume_suffix (s : Parties) : (task.consume s).channel <:+ s.channel := by
  obtain ⟨producer, channel, consumer, cancelled⟩ := s
  cases consumer with
  | receiving c =>
    cases channel with
    | nil => exact List.suffix_refl []
    | cons t channel => exact List.suffix_cons t channel
  | closing result =>
    simp only [SelectTask.consume]
    split <;> exact List.suffix_refl channel
  | _ => exact List.suffix_refl channel

/-- **A move of the join keeps the account.** -/
theorem Accounts.consume (h : task.Accounts s taken left) :
    ∃ taken, task.Accounts (task.consume s) taken left := by
  obtain ⟨taken', hchannel, hcollected⟩ := h.consumer.consume
  refine ⟨taken', hchannel ▸ h.scan, ?_, hcollected⟩
  rw [producer_consume]
  exact h.producer.mono stopped_consume

/-- Cancelling keeps the account. -/
theorem Accounts.cancel (h : task.Accounts s taken left) :
    task.Accounts (task.move s .cancel) taken left where
  scan := h.scan
  producer := h.producer.stop
  consumer := h.consumer

/-- **After any moves the first scan is accounted for.** -/
theorem exists_accounts_after (hcap : 0 < task.plan.capacity) (moves : List Move) :
    ∃ taken left, task.Accounts (task.after moves) taken left := by
  induction moves using List.reverseRecOn with
  | nil => exact ⟨[], task.scan, accounts_start⟩
  | append_singleton moves move ih =>
    obtain ⟨taken, left, h⟩ := ih
    rw [after, List.foldl_append]
    cases move with
    | produce =>
      obtain ⟨left, h⟩ := h.produce hcap
      exact ⟨taken, left, h⟩
    | consume =>
      obtain ⟨taken, h⟩ := h.consume
      exact ⟨taken, left, h⟩
    | cancel => exact ⟨taken, left, h.cancel⟩

/-! ## Who looked when -/

variable {moves : List Move}

theorem after_append (moves more : List Move) :
    task.after (moves ++ more) = more.foldl task.move (task.after moves) :=
  List.foldl_append

/-- **The run is cancelled once somebody has cancelled it.** -/
theorem cancelled_after : (task.after moves).cancelled = true ↔ .cancel ∈ moves := by
  induction moves using List.reverseRecOn with
  | nil => simp [after, start]
  | append_singleton moves move ih =>
    rw [after_append, List.foldl_cons, List.foldl_nil, List.mem_append, List.mem_singleton]
    cases move with
    | produce => simp [SelectTask.move, ih]
    | consume => simp [SelectTask.move, ih]
    | cancel => simp [SelectTask.move]

/-- A join comes to the channel only by looking at the run. -/
theorem looking_of_receiving {c : Collector}
    (h : (task.consume s).consumer = .receiving c) :
    s.consumer = .looking c ∧ s.cancelled = false := by
  obtain ⟨producer, channel, consumer, cancelled⟩ := s
  cases consumer with
  | looking c' =>
    cases cancelled with
    | true => cases h
    | false =>
      cases h
      exact ⟨rfl, rfl⟩
  | receiving c' =>
    cases channel with
    | nil =>
      simp only [SelectTask.consume] at h
      split at h <;> cases h
    | cons t channel => cases h
  | extending work c' =>
    have h : task.extendNext cancelled c' work = .receiving c := h
    revert h
    fun_cases SelectTask.extendNext task cancelled c' work <;> intro h <;> cases h
  | closing result =>
    simp only [SelectTask.consume] at h
    split at h <;> cases h
  | returned result => cases h

/-- **A join that is at the channel has looked at the run before**, when the
run was not cancelled, and has not moved since. -/
theorem exists_look {c : Collector} (h : (task.after moves).consumer = .receiving c) :
    ∃ before between, moves = before ++ .consume :: between
      ∧ (task.after before).consumer = .looking c ∧ .cancel ∉ before
      ∧ .consume ∉ between := by
  -- the last move is that look, or it is not the join's and changes nothing here
  induction moves using List.reverseRecOn with
  | nil => cases h
  | append_singleton moves move ih =>
    rw [after_append, List.foldl_cons, List.foldl_nil] at h
    have hsame : (task.after moves).consumer = .receiving c → move ≠ .consume →
        ∃ before between, moves ++ [move] = before ++ .consume :: between
          ∧ (task.after before).consumer = .looking c ∧ .cancel ∉ before
          ∧ .consume ∉ between := by
      intro h hmove
      obtain ⟨before, between, rfl, hlook, hbefore, hbetween⟩ := ih h
      refine ⟨before, between ++ [move], by simp, hlook, hbefore, ?_⟩
      rw [List.mem_append, List.mem_singleton, not_or]
      exact ⟨hbetween, hmove.symm⟩
    cases move with
    | produce => exact hsame (by rwa [SelectTask.move, consumer_produce] at h) Move.noConfusion
    | cancel => exact hsame h Move.noConfusion
    | consume =>
      obtain ⟨hlook, hcancelled⟩ := looking_of_receiving h
      refine ⟨moves, [], rfl, hlook, fun hmem => ?_, List.not_mem_nil⟩
      rw [cancelled_after.mpr hmem] at hcancelled
      cases hcancelled

variable (task) in
/-- The result of the join, once it has left its loop. -/
def result? : Consumer → Option (Except ExecuteError Table)
  | .closing result => some (result.map task.plan.answer)
  | .returned result => some result
  | _ => none

/-- A result is final. -/
theorem result?_consume {result : Except ExecuteError Table}
    (h : task.result? s.consumer = some result) :
    task.result? (task.consume s).consumer = some result := by
  obtain ⟨producer, channel, consumer, cancelled⟩ := s
  cases consumer with
  | closing r =>
    simp only [SelectTask.consume]
    split
    · exact h
    · exact h
  | returned r => exact h
  | _ => cases h

/-- **There is a move with which the join leaves its loop**, and its result is
settled then. -/
theorem exists_leave {result : Except ExecuteError Table}
    (h : task.result? (task.after moves).consumer = some result) :
    ∃ before later, moves = before ++ .consume :: later
      ∧ task.result? (task.after before).consumer = none
      ∧ task.result? (task.consume (task.after before)).consumer = some result := by
  -- either the last move gives the result, or it was there before and is the same
  induction moves using List.reverseRecOn with
  | nil => cases h
  | append_singleton moves move ih =>
    have hearlier : task.result? (task.after moves).consumer = some result →
        ∃ before later, moves ++ [move] = before ++ .consume :: later
          ∧ task.result? (task.after before).consumer = none
          ∧ task.result? (task.consume (task.after before)).consumer = some result := by
      intro h
      obtain ⟨before, later, rfl, hbefore, hresult⟩ := ih h
      exact ⟨before, later ++ [move], by simp, hbefore, hresult⟩
    rw [after_append, List.foldl_cons, List.foldl_nil] at h
    cases move with
    | produce => exact hearlier (by rwa [SelectTask.move, consumer_produce] at h)
    | cancel => exact hearlier h
    | consume =>
      cases hbefore : task.result? (task.after moves).consumer with
      | none => exact ⟨moves, [], rfl, hbefore, h⟩
      | some earlier =>
        have hsame := result?_consume hbefore
        rw [show task.result? (task.consume (task.after moves)).consumer = some result from h]
          at hsame
        exact hearlier (hbefore.trans hsame.symm)

/-! ## Answers that are not complete -/

variable (task) in
/-- **The run was cancelled between two looks of the join**, the one at the run
and the one into the channel, and the channel was closed by then. -/
def CancelledBetweenLooks (moves : List Move) : Prop :=
  ∃ before between later c, moves = before ++ .consume :: between ++ .consume :: later
    ∧ (task.after before).consumer = .looking c
    ∧ .cancel ∉ before ∧ .cancel ∈ between ∧ .consume ∉ between
    ∧ (task.after (before ++ .consume :: between)).channel = []
    ∧ (task.after (before ++ .consume :: between)).producer = .gone

/-- A run that is cancelled between two looks is cancelled. -/
theorem CancelledBetweenLooks.cancel_mem (h : task.CancelledBetweenLooks moves) :
    .cancel ∈ moves := by
  obtain ⟨before, between, later, c, rfl, -, -, hmem, -⟩ := h
  rw [List.mem_append, List.mem_append, List.mem_cons]
  exact .inl (.inr (.inr hmem))

/-- A table that is returned is a result. -/
theorem result?_of_answer? {table : Table} (h : (task.after moves).answer? = some table) :
    task.result? (task.after moves).consumer = some (.ok table) := by
  unfold Parties.answer? at h
  split at h
  case h_1 table' hconsumer =>
    cases h
    rw [hconsumer]
    rfl
  case h_2 => cases h

/-- **The join leaves with an answer in one of two ways**: when the collector is
full, and when the channel is empty and closed. -/
theorem leave_cases {table : Table} (hnone : task.result? s.consumer = none)
    (hsome : task.result? (task.consume s).consumer = some (.ok table)) :
    (∃ work c, s.consumer = .extending work c
        ∧ ∃ c', task.plan.answer c' = table
          ∧ Collector.takeAll (task.rowsAhead work) c = .ok (false, c'))
      ∨ ∃ c, s.consumer = .receiving c ∧ task.plan.answer c = table ∧ s.channel = []
        ∧ s.producer = .gone := by
  obtain ⟨producer, channel, consumer, cancelled⟩ := s
  cases consumer with
  | looking c => cases cancelled <;> cases hsome
  | receiving c =>
    cases channel with
    | cons t channel => cases hsome
    | nil =>
      cases producer with
      | gone =>
        cases hsome
        exact .inr ⟨c, rfl, rfl, rfl, rfl⟩
      | _ => cases hsome
  | extending work c =>
    refine .inl ⟨work, c, rfl, ?_⟩
    have hsome : task.result? (task.extendNext cancelled c work) = some (.ok table) := hsome
    cases work with
    | nil => cases hsome
    | cons head work =>
      obtain ⟨row, steps⟩ := head
      cases steps with
      | cons step steps => cases cancelled <;> cases hsome
      | nil =>
        rw [rowsAhead_complete, Collector.takeAll_cons]
        simp only [SelectTask.extendNext] at hsome
        cases hpush : c.push row with
        | error e =>
          rw [hpush] at hsome
          cases hsome
        | ok result =>
          obtain ⟨more, c'⟩ := result
          rw [hpush] at hsome
          cases more with
          | true => cases hsome
          | false =>
            cases hsome
            exact ⟨c', rfl, rfl⟩
  | closing result => cases hnone
  | returned result => cases hnone

/-- **An answer is complete, or the run was cancelled between two looks** and
the answer is that to a front part of the first scan. -/
theorem complete_or_cancelledBetweenLooks (hp : task.plan.Sound) {table : Table}
    (h : (task.after moves).answer? = some table) :
    table = task.plan.fullAnswer task.memory
      ∨ task.CancelledBetweenLooks moves
        ∧ ∃ sent left, task.scan = sent ++ left ∧ left ≠ [] ∧ table = task.answerTo sent := by
  obtain ⟨before, later, rfl, hnone, hsome⟩ := exists_leave (result?_of_answer? h)
  obtain ⟨taken, left, hscan, hahead, hcollected⟩ :=
    exists_accounts_after hp.capacity_pos before
  rcases leave_cases hnone hsome with ⟨work, c, hconsumer, c', rfl, htake⟩ |
    ⟨c, hconsumer, rfl, hchannel, hgone⟩
  · rw [hconsumer] at hcollected
    have hfull : Collector.takeAll (task.rowsOf taken) (.ofPlan task.plan) = .ok (false, c') :=
      Eq.trans hcollected htake
    exact .inl (answerTo_eq_of_full hp (hscan.trans (List.append_assoc ..)) hfull)
  · rw [hconsumer] at hcollected
    rw [hchannel, List.append_nil] at hscan
    obtain ⟨more, c', htake, hanswer⟩ := takeAll_rowsOf hp ⟨left, hscan.symm⟩
    have hc : c' = c := by
      have heq := htake.symm.trans hcollected
      cases heq
      rfl
    rw [← hc, hanswer]
    by_cases hleft : left = []
    · rw [hleft, List.append_nil] at hscan
      rw [← hscan, answerTo_scan]
      exact .inl rfl
    · refine .inr ⟨?_, taken, left, hscan, hleft, rfl⟩
      obtain ⟨front, between, rfl, hlook, hfront, hbetween⟩ := exists_look hconsumer
      -- a scan that was not stopped would have left nothing
      have hcancelled : (task.after (front ++ .consume :: between)).cancelled = true := by
        by_contra hnot
        rw [hgone] at hahead
        refine hleft (hahead ?_)
        rw [Parties.stopped, hconsumer, Bool.eq_false_iff.mpr hnot]
        rfl
      have hmem := cancelled_after.mp hcancelled
      rw [List.mem_append, List.mem_cons] at hmem
      have hmem : .cancel ∈ between := (hmem.resolve_left hfront).resolve_left Move.noConfusion
      exact ⟨front, between, later, c, rfl, hlook, hfront, hmem, hbetween, hchannel, hgone⟩

end SelectTask

end TripleScript
