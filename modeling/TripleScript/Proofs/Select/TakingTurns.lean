import Mathlib.Logic.Relation
import TripleScript.Proofs.Select.Exposure
import TripleScript.Proofs.Select.Truncation

/-!
# Taking turns is one of the orders

`SelectPlan.run` lets the two sides of a query take turns, and `SelectTask.exposedAfter`
lets them move in any order. The first is a case of the second: each turn is a row of
moves of the side whose turn it is, with the same requests to the store and the same
faults met on the way. A turn of the scan fits into the channel because its quota is no
more than a page, and the join has emptied the channel by then.

So what holds in every order of the moves holds of `Plan.execute`
(`SelectTask.exists_moves_execute`). The converse fails: when the run is cancelled, there
are orders with an answer that no turns give.
-/

namespace TripleScript

open ExposedParties (within)

namespace SelectTask

variable {task : SelectTask} {producer : Producer} {channel : List Triple}
  {failure : Option SystemError} {left : List Triple}

variable (task) in
/-- Moves of the two sides lead from one state of the parties to another. -/
abbrev ExposedLeads : ExposedParties → ExposedParties → Prop :=
  Relation.ReflTransGen fun s s' => ∃ move ≠ .cancel, task.exposedMove s move = s'

theorem exposedLeads_produce {s s' : ExposedParties} (h : task.exposedProduce s = s') :
    task.ExposedLeads s s' :=
  .single ⟨.produce, nofun, h⟩

theorem exposedLeads_consume {s s' : ExposedParties} (h : task.exposedConsume s = s') :
    task.ExposedLeads s s' :=
  .single ⟨.consume, nofun, h⟩

/-! ## The join -/

/-- Where the parties are when the join has extended some rows, with more work to
do. -/
def extendedTo (producer : Producer) (channel : List Triple) (failure : Option SystemError)
    (work : List (Row × List ScanStep)) :
    EStateM.Result ExecuteError Session (Bool × Collector) → ExposedParties
  | .ok result u => within u producer channel (afterwards work (.ok result)) failure
  | .error e u => within u producer channel (afterwards work (.error e)) failure

/-- Going through the triples of a scan, if the steps behind it can be made. -/
theorem exposedLeads_joinEach {steps : List ScanStep}
    (hone : ∀ row work c u, task.ExposedLeads
      (within u producer channel (.extending ((row, steps) :: work) c) failure)
      (extendedTo producer channel failure work (extend steps row c u)))
    (pattern : SlotPattern) (row : Row) (work : List (Row × List ScanStep)) (ts : List Triple)
    (c : Collector) (u : Session) :
    task.ExposedLeads
      (within u producer channel
        (.extending ((ts.filterMap (pattern.bind · row)).map (·, steps) ++ work) c) failure)
      (extendedTo producer channel failure work
        (joinEach pattern row (extend steps) ts c u)) := by
  induction ts generalizing c u with
  | nil => exact .refl
  | cons t ts ih =>
    rw [List.filterMap_cons, joinEach]
    cases pattern.bind t row with
    | none => exact ih c u
    | some extended =>
      refine .trans (hone extended _ c u) ?_
      show task.ExposedLeads _ (extendedTo producer channel failure work
        (EStateM.bind (extend steps extended c) _ u))
      unfold EStateM.bind
      cases extend steps extended c u with
      | error e u' => exact .refl
      | ok result u' =>
        obtain ⟨more, c'⟩ := result
        cases more with
        | false => exact .refl
        | true => exact ih c' u'

/-- What the join does with a row: it looks at the run, makes a scan and goes
through it. -/
theorem extend_cons (step : ScanStep) (steps : List ScanStep) (row : Row) (c : Collector)
    (u : Session) :
    extend (step :: steps) row c u
      = if u.cancelled then .error .cancelled u
        else match Session.scan (step.pattern.lookup row) u with
          | .error e u => .error (.store e) u
          | .ok ts u => joinEach step.pattern row (extend steps) ts c u := by
  have hcheck : checkCancelled u = if u.cancelled then .error .cancelled u else .ok () u := by
    show (if u.cancelled then throw .cancelled else pure () : SelectM Unit) u = _
    cases u.cancelled <;> rfl
  show EStateM.bind checkCancelled (fun _ => EStateM.bind
    (EStateM.adaptExcept .store (Session.scan (step.pattern.lookup row)))
    fun ts => joinEach step.pattern row (extend steps) ts c) u = _
  unfold EStateM.bind EStateM.adaptExcept
  rw [hcheck]
  cases u.cancelled with
  | true => rfl
  | false =>
    simp only [Bool.false_eq_true, if_false]
    cases Session.scan (step.pattern.lookup row) u <;> rfl

/-- **Extending a row** is a row of moves of the join. -/
theorem exposedLeads_extend (steps : List ScanStep) (row : Row)
    (work : List (Row × List ScanStep)) (c : Collector) (u : Session) :
    task.ExposedLeads
      (within u producer channel (.extending ((row, steps) :: work) c) failure)
      (extendedTo producer channel failure work (extend steps row c u)) := by
  induction steps generalizing row work c u with
  | nil =>
    refine exposedLeads_consume ?_
    show ({ within u producer channel (.extending ((row, []) :: work) c) failure with
      toParties := task.consume _ } : ExposedParties) = _
    simp only [SelectTask.consume, within, extendNext, extend, collect]
    rcases c.push row with e | ⟨more, c'⟩
    · rfl
    · cases more <;> rfl
  | cons step steps ih =>
    have hmove := task.exposedConsume_scan producer channel failure row step steps work c u
    rw [extend_cons]
    cases hc : u.cancelled with
    | true =>
      rw [hc, if_pos rfl] at hmove
      exact exposedLeads_consume hmove
    | false =>
      rw [hc, if_neg Bool.false_ne_true] at hmove
      rw [if_neg Bool.false_ne_true]
      cases hscan : Session.scan (step.pattern.lookup row) u with
      | error e u' =>
        rw [hscan] at hmove
        exact exposedLeads_consume hmove
      | ok ts u' =>
        rw [hscan] at hmove
        exact .trans (exposedLeads_consume hmove)
          (exposedLeads_joinEach ih step.pattern row work ts c u')

variable (task) in
/-- Before the join looks into the channel it looks at the run. -/
theorem exposedLeads_look (producer : Producer) (channel : List Triple)
    (failure : Option SystemError) (c : Collector) (u : Session) :
    task.ExposedLeads (within u producer channel (.looking c) failure)
      (within u producer channel
        (if u.cancelled then .closing (.error .cancelled) else .receiving c) failure) :=
  exposedLeads_consume rfl

/-- Where the parties are after a turn of the join. -/
def joinedTo (producer : Producer) (failure : Option SystemError) (turn : Joined × Session) :
    ExposedParties :=
  within turn.2 producer turn.1.left
    (match turn.1.result with
      | .ok (true, c) => .looking c
      | .ok (false, c) => .closing (.ok c)
      | .error e => .closing (.error e)) failure

/-- **A turn of the join** is a row of its moves. -/
theorem exposedLeads_joinHanded (ts : List Triple) (c : Collector) (u : Session) :
    task.ExposedLeads (within u producer ts (.looking c) failure)
      (joinedTo producer failure (task.plan.joinHanded task.first task.rest ts c u)) := by
  induction ts generalizing c u with
  | nil => exact .refl
  | cons t ts ih =>
    have hlook := task.exposedLeads_look producer (t :: ts) failure c u
    have htake : task.exposedConsume (within u producer (t :: ts) (.receiving c) failure)
        = within u producer ts (.extending (task.begun t) c) failure := rfl
    have hback : ∀ c' u', task.ExposedLeads (within u' producer ts (.extending [] c') failure)
        (joinedTo producer failure (task.plan.joinHanded task.first task.rest ts c' u')) :=
      fun c' u' => .trans (exposedLeads_consume rfl) (ih c' u')
    rw [SelectPlan.joinHanded]
    cases hc : u.cancelled with
    | true =>
      rw [hc, if_pos rfl] at hlook
      exact hlook
    | false =>
      rw [hc, if_neg Bool.false_ne_true] at hlook
      refine hlook.trans (.trans (exposedLeads_consume htake) ?_)
      rw [if_neg Bool.false_ne_true, begun, SelectPlan.joinTriple]
      cases task.first.pattern.bind t (Row.empty task.plan.slotCount) with
      | none => exact hback c u
      | some row =>
        refine .trans (exposedLeads_extend task.rest row [] c u) ?_
        dsimp only
        cases extend task.rest row c u with
        | error e u' => exact .refl
        | ok result u' =>
          obtain ⟨more, c'⟩ := result
          cases more with
          | false => exact .refl
          | true => exact hback c' u'

/-! ## The first scan -/

/-- Where the scan is when its turn is over. -/
def resting : Feed → Producer
  | .waiting page full => .looking page page.getLast? full
  | _ => .gone

/-- What the scan has failed with when its turn is over. -/
def failing : Feed → Option SystemError
  | .failed e => some e
  | _ => none

/-- Where the parties are after a turn of the scan. -/
def handedTo (channel : List Triple) (c : Collector) (result : Turn × Session) :
    ExposedParties :=
  within result.2 (resting result.1.feed) (channel ++ result.1.handed) (.looking c)
    (failing result.1.feed)

/-- A scan that is through with its last page leaves. -/
theorem exposedLeads_leave (last : Option Triple) (channel : List Triple) (consumer : Consumer)
    (u : Session) :
    task.ExposedLeads (within u (.looking [] last false) channel consumer none)
      (within u .gone channel consumer none) :=
  .trans (exposedLeads_produce rfl) (exposedLeads_produce rfl)

/-- A scan that has been stopped leaves. -/
theorem exposedLeads_stop {t : Triple} {page : List Triple} {last : Option Triple} {full : Bool}
    {channel : List Triple} {consumer : Consumer} {u : Session}
    (hstopped : (u.cancelled || consumer.hasLeft) = true) :
    task.ExposedLeads (within u (.looking (t :: page) last full) channel consumer none)
      (within u .gone channel consumer none) := by
  have hlook : task.exposedProduce (within u (.looking (t :: page) last full) channel consumer none)
      = within u (if u.cancelled || consumer.hasLeft then .leaving
          else .sending t page last full) channel consumer none := rfl
  rw [hstopped, if_pos rfl] at hlook
  exact .trans (exposedLeads_produce hlook) (exposedLeads_produce rfl)

/-- A scan that has not been stopped sends a triple for which there is room. -/
theorem exposedLeads_send {t : Triple} {page : List Triple} {last : Option Triple} {full : Bool}
    {channel : List Triple} {c : Collector} {u : Session} (hfree : u.cancelled = false)
    (hroom : channel.length < task.plan.capacity) :
    task.ExposedLeads (within u (.looking (t :: page) last full) channel (.looking c) none)
      (within u (.looking page last full) (channel ++ [t]) (.looking c) none) := by
  have hlook : task.exposedProduce
        (within u (.looking (t :: page) last full) channel (.looking c) none)
      = within u (if u.cancelled || false then .leaving
          else .sending t page last full) channel (.looking c) none := rfl
  rw [hfree, if_neg (by decide)] at hlook
  refine .trans (exposedLeads_produce hlook) (exposedLeads_produce ?_)
  show ({ within u (.sending t page last full) channel (.looking c) none with
      toParties := task.produce _ } : ExposedParties) = _
  simp only [SelectTask.produce, within, Consumer.hasLeft, hroom, if_true, Bool.false_eq_true,
    if_false]

/-- No page without a triple is full. -/
theorem full_eq_false (hcap : 0 < task.plan.capacity) {page : List Triple} (hnil : page = []) :
    decide (task.plan.capacity ≤ page.length) = false := by
  rw [hnil, decide_eq_false_iff_not]
  exact hcap.not_ge

variable (task) in
/-- An empty channel has room for a turn. -/
theorem length_nil_add_turnQuota_le :
    ([] : List Triple).length + turnQuota task.plan.capacity ≤ task.plan.capacity := by
  rw [List.length_nil, Nat.zero_add]
  exact Nat.min_le_left ..

/-- **A turn of the scan** is a row of its moves, if the channel has room for what
is handed on. -/
theorem exposedLeads_handOver (hcap : 0 < task.plan.capacity) {quota : ℕ} {page : List Triple}
    {full : Bool} (hfull : page = [] → full = false) {channel : List Triple}
    (hroom : channel.length + quota ≤ task.plan.capacity) (c : Collector) (u : Session) :
    task.ExposedLeads
      (within u (.looking page page.getLast? full) channel (.looking c) none)
      (handedTo channel c (handOver task.lookup task.plan.capacity quota page full u)) := by
  fun_induction handOver task.lookup task.plan.capacity quota page full u
      generalizing channel with
  | case1 quota full u =>
    obtain rfl := hfull rfl
    rw [handedTo, List.append_nil]
    exact exposedLeads_leave ..
  | case2 page full u hne =>
    rw [handedTo, List.append_nil]
    exact .refl
  | case3 quota t page full u hc =>
    rw [handedTo, List.append_nil]
    exact exposedLeads_stop (by rw [hc, Bool.true_or])
  | case4 quota t page u hfree hlast e u' hnext =>
    obtain rfl := List.isEmpty_iff.mp hlast
    have hpage := task.exposedProduce_page (some t) (channel ++ [t]) (.looking c) u
    rw [hnext] at hpage
    refine .trans (exposedLeads_send (Bool.eq_false_iff.mpr hfree) (by omega)) ?_
    exact .trans (exposedLeads_produce rfl)
      (.trans (exposedLeads_produce hpage) (exposedLeads_produce rfl))
  | case5 quota t page u hfree hlast next u' hnext turn u'' hturn ih =>
    obtain rfl := List.isEmpty_iff.mp hlast
    have hpage := task.exposedProduce_page (some t) (channel ++ [t]) (.looking c) u
    rw [hnext] at hpage
    have hroom : (channel ++ [t]).length + quota ≤ task.plan.capacity := by
      rw [List.length_append, List.length_singleton]
      omega
    have hlater := ih (full_eq_false hcap) hroom
    rw [hturn, handedTo, List.append_assoc] at hlater
    refine .trans (exposedLeads_send (Bool.eq_false_iff.mpr hfree) (by omega)) ?_
    exact .trans (exposedLeads_produce rfl) (.trans (exposedLeads_produce hpage) hlater)
  | case6 quota t page full u hfree hlast hmore =>
    obtain rfl := List.isEmpty_iff.mp hlast
    obtain rfl := Bool.eq_false_iff.mpr hmore
    exact .trans (exposedLeads_send (Bool.eq_false_iff.mpr hfree) (by omega))
      (exposedLeads_leave ..)
  | case7 quota t page full u hfree hmore turn u' hturn ih =>
    have hnil := mt List.isEmpty_iff.mpr hmore
    have hroom : (channel ++ [t]).length + quota ≤ task.plan.capacity := by
      rw [List.length_append, List.length_singleton]
      omega
    have hlater := ih (fun h => absurd h hnil) hroom
    rw [hturn, handedTo, List.append_assoc] at hlater
    have hlast : (t :: page).getLast? = page.getLast? := by
      obtain ⟨u, page, rfl⟩ := List.exists_cons_of_ne_nil hnil
      exact List.getLast?_cons_cons
    rw [hlast]
    exact .trans (exposedLeads_send (Bool.eq_false_iff.mpr hfree) (by omega)) hlater

/-! ## The answer -/

variable (task) in
/-- What a join returns that has left its loop, when the scan goes on like this. -/
def returning (feed : Feed) : Except ExecuteError Collector → Except ExecuteError Table
  | .error e => .error e
  | .ok c => task.answerUnless (failing feed) c

variable (task) in
/-- Nobody watches, so a result settles as it is returned. -/
theorem settle_eq_returning (paused : Bool) (feed : Feed) (u : Session)
    (result : Except ExecuteError Collector) :
    SelectPlan.settle false paused feed u (result.map task.plan.answer)
      = .finished (task.returning feed result) := by
  cases feed <;> cases result <;> rfl

variable (task) in
/-- **A join that has left its loop** stops the scan and returns. -/
theorem exposedLeads_close {feed : Feed}
    (hwaiting : ∀ page full, feed = .waiting page full → page ≠ []) (channel : List Triple)
    (result : Except ExecuteError Collector) (u : Session) :
    task.ExposedLeads
      (within u (resting feed) channel (.closing result) (failing feed))
      (within u .gone channel (.returned (task.returning feed result)) (failing feed)) := by
  have hreturn : ∀ failure, failing feed = failure → task.ExposedLeads
      (within u .gone channel (.closing result) failure)
      (within u .gone channel (.returned (task.returning feed result)) failure) := by
    rintro failure rfl
    cases result <;> exact exposedLeads_consume rfl
  cases feed with
  | waiting page full =>
    obtain ⟨t, page, rfl⟩ := List.exists_cons_of_ne_nil (hwaiting page full rfl)
    exact .trans (exposedLeads_stop (Bool.or_true _)) (hreturn none rfl)
  | ended => exact hreturn none rfl
  | failed e => exact hreturn (some e) rfl

variable (task) in
/-- A join that wants more rows has taken all that it was handed. -/
theorem left_of_joinHanded (ts : List Triple) (c : Collector) (u : Session) {c' : Collector}
    (h : (task.plan.joinHanded task.first task.rest ts c u).1.result = .ok (true, c')) :
    (task.plan.joinHanded task.first task.rest ts c u).1.left = [] := by
  revert h
  fun_induction SelectPlan.joinHanded task.plan task.first task.rest ts c u with
  | case1 => exact fun _ => rfl
  | case5 t ts c u hc c₁ u₁ hjoin ih => exact ih
  | _ => intro h; cases h

/-- A page that waits is not empty. -/
theorem ne_nil_of_awaits {s s' : Session} {feed : Feed} (h : feed.Awaits s s' task.lookup left)
    (page : List Triple) (full : Bool) (hwait : feed = .waiting page full) : page ≠ [] := by
  subst hwait
  exact h.1

/-- **The turns of a query are moves of its two sides.** -/
theorem exposedLeads_takeTurns (hcap : 0 < task.plan.capacity) {u : Session} (turns : ℕ)
    (turn : Turn) (behind : List Triple) (c : Collector)
    (hfeed : ∃ s, turn.feed.Awaits s u task.lookup behind)
    (hturns : u.cancelled = false → behind.length ≤ turns) :
    ∃ result channel failure,
      (task.plan.takeTurns false task.first task.rest turns turn c u).1 = .finished result
      ∧ task.ExposedLeads
        (within u (resting turn.feed) turn.handed (.looking c) (failing turn.feed))
        (within (task.plan.takeTurns false task.first task.rest turns turn c u).2 .gone channel
          (.returned result) failure) := by
  generalize hwatched : false = watched
  have hjoined : ∀ {turn : Turn} {c : Collector} {u u' : Session} {joined : Joined},
      task.plan.joinHanded task.first task.rest turn.handed c u = (joined, u') →
      task.ExposedLeads (within u (resting turn.feed) turn.handed (.looking c)
        (failing turn.feed)) (joinedTo (resting turn.feed) (failing turn.feed) (joined, u')) := by
    intro turn c u u' joined hjoin
    rw [← hjoin]
    exact exposedLeads_joinHanded ..
  have hall : ∀ {turn : Turn} {c c' : Collector} {u u' : Session} {joined : Joined},
      task.plan.joinHanded task.first task.rest turn.handed c u = (joined, u') →
      joined.result = .ok (true, c') → joined.left = [] := by
    intro turn c c' u u' joined hjoin
    have hleft := @left_of_joinHanded task turn.handed c u c'
    rwa [hjoin] at hleft
  fun_induction SelectPlan.takeTurns task.plan watched task.first task.rest turns turn c u
      generalizing behind with
  | case1 turns turn c u hwatching =>
    rw [← hwatched] at hwatching
    cases hwatching
  | case2 turns turn c u _ joined u' hjoin spent settle e hresult =>
    subst hwatched
    have hsettle : settle (.error e) = _ := task.settle_eq_returning _ _ _ (.error e)
    have hleads := hjoined hjoin
    rw [joinedTo, hresult] at hleads
    exact ⟨_, _, _, hsettle,
      hleads.trans (task.exposedLeads_close (ne_nil_of_awaits hfeed.choose_spec) ..)⟩
  | case3 turns turn c u _ joined u' hjoin spent settle c' hresult =>
    subst hwatched
    have hsettle : settle (.ok (task.plan.answer c')) = _ := task.settle_eq_returning _ _ _ (.ok c')
    have hleads := hjoined hjoin
    rw [joinedTo, hresult] at hleads
    exact ⟨_, _, _, hsettle,
      hleads.trans (task.exposedLeads_close (ne_nil_of_awaits hfeed.choose_spec) ..)⟩
  | case4 turns turn c u _ joined u' hjoin spent settle c' hresult hc =>
    subst hwatched
    have hsettle : settle (.error .cancelled) = _ :=
      task.settle_eq_returning _ _ _ (.error .cancelled)
    have hleads := hjoined hjoin
    rw [joinedTo, hresult] at hleads
    have hlook := task.exposedLeads_look (resting turn.feed) joined.left (failing turn.feed) c' u'
    rw [hc, if_pos rfl] at hlook
    exact ⟨_, _, _, hsettle, hleads.trans (hlook.trans
      (task.exposedLeads_close (ne_nil_of_awaits hfeed.choose_spec) ..))⟩
  | case5 turn c u _ joined u' hjoin c' hresult hc turns page full hwait next u'' hnext ih =>
    have hleads := hjoined hjoin
    rw [joinedTo, hresult, hall hjoin hresult, hwait] at hleads
    have hsame := SelectPlan.sameStore_of_joinHanded hjoin
    obtain ⟨s, hfeed⟩ := hfeed
    rw [hwait] at hfeed
    rw [Feed.Awaits, ← hsame.memory] at hfeed
    have hover : task.ExposedLeads
        (within u' (.looking page page.getLast? full) [] (.looking c') none)
        (handedTo [] c'
          (handOver task.lookup task.plan.capacity (turnQuota task.plan.capacity) page full u')) :=
      exposedLeads_handOver hcap (fun hnil => absurd hnil hfeed.1)
        task.length_nil_add_turnQuota_le c' u'
    have hnext : handOver task.lookup task.plan.capacity (turnQuota task.plan.capacity) page full
      u' = (next, u'') := hnext
    rw [hnext] at hover
    obtain ⟨later, rfl, hawaits, hlater⟩ := exists_later_of_handOver hcap hfeed
      (fun hfree => hturns (hsame.cancelled_eq_false hfree)) hnext
    obtain ⟨result, channel, failure, hresult, hrest⟩ := ih later ⟨u', hawaits⟩ hlater
    rw [hwait]
    exact ⟨result, channel, failure, hresult, hleads.trans (hover.trans hrest)⟩
  | case6 turns turn c u _ joined u' hjoin spent settle c' hresult hc hstop =>
    subst hwatched
    have hsettle : settle (.ok (task.plan.answer c')) = _ := task.settle_eq_returning _ _ _ (.ok c')
    have hleads := hjoined hjoin
    rw [joinedTo, hresult, hall hjoin hresult] at hleads
    -- if a page were waiting, a triple would be left for another turn
    have hgone : resting turn.feed = .gone := by
      obtain ⟨s, hfeed⟩ := hfeed
      cases hwait : turn.feed with
      | ended => rfl
      | failed e => rfl
      | waiting page full =>
        rw [hwait] at hfeed
        cases turns with
        | succ turns => exact (hstop turns page full rfl hwait).elim
        | zero =>
          have hcalm := (SelectPlan.sameStore_of_joinHanded hjoin).cancelled_eq_false
            (Bool.eq_false_iff.mpr hc)
          rw [List.length_eq_zero_iff.mp (Nat.le_zero.mp (hturns hcalm))] at hfeed
          exact absurd (List.prefix_nil.mp hfeed.2.front) hfeed.1
    have hlook := task.exposedLeads_look (resting turn.feed) [] (failing turn.feed) c' u'
    rw [if_neg hc] at hlook
    have hend : task.exposedConsume (within u' (resting turn.feed) [] (.receiving c')
        (failing turn.feed)) = within u' (resting turn.feed) []
          (if (resting turn.feed).isGone then .closing (.ok c') else .looking c')
          (failing turn.feed) := rfl
    have hclose := task.exposedLeads_close (ne_nil_of_awaits hfeed.choose_spec) [] (.ok c') u'
    rw [hgone] at hleads hlook hend hclose ⊢
    exact ⟨_, _, _, hsettle,
      hleads.trans (hlook.trans (.trans (exposedLeads_consume hend) hclose))⟩

/-- The first turn of the scan is a row of its moves. -/
theorem exposedLeads_firstTurn (hcap : 0 < task.plan.capacity) (c : Collector) (u : Session) :
    task.ExposedLeads (within u (.reading none) [] (.looking c) none)
      (handedTo [] c (firstTurn task.lookup task.plan.capacity u)) := by
  have hread := task.exposedProduce_page none [] (.looking c) u
  unfold firstTurn
  cases hpage : Session.page task.lookup none task.plan.capacity u with
  | error e u' =>
    rw [hpage] at hread
    exact .trans (exposedLeads_produce hread) (exposedLeads_produce rfl)
  | ok page u' =>
    rw [hpage] at hread
    exact .trans (exposedLeads_produce hread) (exposedLeads_handOver hcap (full_eq_false hcap)
      task.length_nil_add_turnQuota_le c u')

/-- A query whose sides take turns has a result, to which their moves lead. -/
theorem exposedLeads_run (hcap : 0 < task.plan.capacity) (u : Session) :
    ∃ result channel failure,
      (task.plan.run false u).1 = .finished result
      ∧ task.ExposedLeads (within u (.reading none) [] (.looking (.ofPlan task.plan)) none)
        (within (task.plan.run false u).2 .gone channel (.returned result) failure) := by
  have hundergoes := undergoes_firstTurn task.lookup task.plan.capacity u
  have hfirst := exposedLeads_firstTurn hcap (.ofPlan task.plan) u
  obtain ⟨behind, hscan, hfeed⟩ := handsOn_firstTurn task.lookup hcap u
  have hlength : behind.length
      ≤ (firstTurn task.lookup task.plan.capacity u).2.store.memory.size := by
    have h := u.store.memory.length_scan_le task.lookup
    rw [hscan, List.length_append] at h
    rw [hundergoes.memory]
    omega
  obtain ⟨result, channel, failure, hresult, hturns⟩ := exposedLeads_takeTurns hcap _ _ behind
    (.ofPlan task.plan) ⟨u, hfeed⟩ fun _ => hlength
  unfold SelectPlan.run
  rw [task.steps_eq]
  exact ⟨result, channel, failure, hresult, hfirst.trans hturns⟩

/-- Where moves of the two sides lead from the beginning. -/
theorem exists_moves_of_exposedLeads {fault : List Fault} {s : ExposedParties}
    (h : task.ExposedLeads (task.exposedStart fault) s) :
    ∃ moves, .cancel ∉ moves ∧ task.exposedAfter fault moves = s := by
  induction h with
  | refl => exact ⟨[], List.not_mem_nil, rfl⟩
  | tail _ hstep ih =>
    obtain ⟨moves, hmoves, rfl⟩ := ih
    obtain ⟨move, hmove, rfl⟩ := hstep
    refine ⟨moves ++ [move], ?_, exposedAfter_concat moves move⟩
    rw [List.mem_append, List.mem_singleton, not_or]
    exact ⟨hmoves, hmove.symm⟩

/-- **Carrying out a query is one of the orders**: the result that `Plan.execute`
has when the two sides take turns, with any faults in wait, is a result of their
moves, and it leaves the same session behind. -/
theorem exists_moves_execute (hcap : 0 < task.plan.capacity) (fault : List Fault) :
    ∃ moves, .cancel ∉ moves
      ∧ (task.exposedAfter fault moves).returned?
        = some ((Plan.select task.plan).execute (task.session fault)).1
      ∧ (task.exposedAfter fault moves).session
        = ((Plan.select task.plan).execute (task.session fault)).2 := by
  obtain ⟨result, channel, failure, hresult, hleads⟩ :=
    exposedLeads_run hcap (task.session fault)
  obtain ⟨moves, hmoves, hafter⟩ := exists_moves_of_exposedLeads hleads
  have hexecute : (Plan.select task.plan).execute (task.session fault)
      = (result, (task.plan.run false (task.session fault)).2) := by
    unfold Plan.execute Plan.run
    rw [show (task.session fault).cancelled = false from rfl, if_neg Bool.false_ne_true]
    dsimp only
    revert hresult
    rcases task.plan.run false (task.session fault) with ⟨ending, u⟩
    rintro rfl
    rfl
  refine ⟨moves, hmoves, ?_, ?_⟩
  · rw [hafter, hexecute]
    rfl
  · rw [hafter, hexecute]
    rfl

end SelectTask

end TripleScript
