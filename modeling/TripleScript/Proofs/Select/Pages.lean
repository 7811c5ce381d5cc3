import TripleScript.Proofs.Select.Interleaving
import TripleScript.Proofs.Select.Requests

/-!
# The pages of the first scan

The first scan of a query has no counter. It reads a page, hands on the
triples of it, and takes the last one as the cursor for the next page; the
first page that is shorter than asked for is the last one. That this comes to
an end and misses nothing is a matter of the cursor: behind it lies the next
piece of the scan, however the store finds it.

What the scan does is written down move by move (`SelectTask.deeds`). At every
point of its loop the pages read so far are the first pieces of the scan, the
triples sent so far are its front, and the two numbers belong together
(`SelectTask.Done`). A move keeps that as long as nobody stops the scan
(`Done.produce`), whatever the join does meanwhile and in whatever order the
moves come (`done_after`).

The moves are counted as well: each page costs two of them, each triple two,
and two more are lost whenever the channel is full. So it can be told from the
number of its moves whether the scan is gone, and when it is gone, it has read
one page more than full pages fit into the scan (`first_scan_read_in_pages`). If
the last triple stands at the end of a full page, that one page is empty.

A sound query without a limit stops the scan only by being cancelled
(`runsFreely_of_unlimited`), so once it has been answered, the scan has been
read to the end (`pages_of_answer`). As many pages are read when the two sides
take turns (`SelectPlan.Sound.run_awaiting`).
-/

namespace TripleScript

/-! ## What the scan does -/

/-- The pages that were read, the first one in front. -/
def pagesRead (deeds : List Deed) : List (List Triple) := deeds.filterMap Deed.page?

/-- The triples that were put into the channel, the first one in front. -/
def triplesSent (deeds : List Deed) : List Triple := deeds.filterMap Deed.sent?

/-- The moves that reading some pages, sending some triples and waiting take:
a page is read and found used up, and before a triple is sent or found to have
no room the scan looks whether it has been stopped. -/
def movesFor (deeds : List Deed) : ℕ :=
  2 * ((pagesRead deeds).length + (triplesSent deeds).length + deeds.count .waits)

section Deeds

variable (deeds : List Deed)

theorem pagesRead_append (more : List Deed) :
    pagesRead (deeds ++ more) = pagesRead deeds ++ pagesRead more :=
  List.filterMap_append

theorem triplesSent_append (more : List Deed) :
    triplesSent (deeds ++ more) = triplesSent deeds ++ triplesSent more :=
  List.filterMap_append

@[simp] theorem pagesRead_concat (d : Deed) :
    pagesRead (deeds ++ [d]) = pagesRead deeds ++ d.page?.toList := by
  rw [pagesRead_append]
  cases d <;> rfl

@[simp] theorem triplesSent_concat (d : Deed) :
    triplesSent (deeds ++ [d]) = triplesSent deeds ++ d.sent?.toList := by
  rw [triplesSent_append]
  cases d <;> rfl

theorem movesFor_concat (d : Deed) :
    movesFor (deeds ++ [d]) = movesFor deeds + if d = .goesOn then 0 else 2 := by
  simp only [movesFor, pagesRead_concat, triplesSent_concat, List.length_append, List.count_append]
  cases d <;> simp [Deed.page?, Deed.sent?] <;> omega

end Deeds

namespace SelectTask

variable (task : SelectTask)

/-- What the first scan does in the course of some moves. -/
def deedsFrom (task : SelectTask) (s : Parties) : List Move → List Deed
  | [] => []
  | move :: moves =>
    (if move = .produce then [task.deed s] else []) ++ task.deedsFrom (task.move s move) moves

/-- **What the first scan has done** after some moves, one deed for each move of
its own. -/
def deeds (moves : List Move) : List Deed := task.deedsFrom task.start moves

/-- **Nobody stops the scan** before it is gone: until then the run is not
cancelled, and the join does not leave. -/
def RunsFreely (moves : List Move) : Prop :=
  ∀ before, before <+: moves →
    (task.after before).stopped = true → (task.after before).producer = .gone

variable {task} {s : Parties} {moves : List Move}

theorem deedsFrom_append (more : List Move) :
    task.deedsFrom s (moves ++ more)
      = task.deedsFrom s moves ++ task.deedsFrom (moves.foldl task.move s) more := by
  induction moves generalizing s with
  | nil => rfl
  | cons move moves ih =>
    rw [List.cons_append, deedsFrom, deedsFrom, ih, List.foldl_cons, List.append_assoc]

theorem deeds_append (moves more : List Move) :
    task.deeds (moves ++ more) = task.deeds moves ++ task.deedsFrom (task.after moves) more :=
  deedsFrom_append more

theorem deeds_concat (moves : List Move) (move : Move) :
    task.deeds (moves ++ [move])
      = task.deeds moves ++ if move = .produce then [task.deed (task.after moves)] else [] := by
  rw [deeds_append, deedsFrom, deedsFrom, List.append_nil]

theorem RunsFreely.of_append {more : List Move} (h : task.RunsFreely (moves ++ more)) :
    task.RunsFreely moves :=
  fun before hbefore => h before (hbefore.trans (List.prefix_append moves more))

/-! ## One move -/

variable (task) in
/-- **The moves of a scan that nobody stops**: from one point of its loop, with
what it does, to the next. -/
inductive Advances : Producer → Deed → Producer → Prop where
  /-- It reads the page behind the cursor. -/
  | read {cursor : Option Triple} {page : List Triple}
      (hpage : page = task.memory.page task.access task.lookup cursor task.plan.capacity) :
      Advances (.reading cursor) (.reads page)
        (.looking page page.getLast? (task.plan.capacity ≤ page.length))
  /-- It is through with a full page. -/
  | turn {last : Option Triple} : Advances (.looking [] last true) .goesOn (.reading last)
  /-- It is through with the last page. -/
  | leave {last : Option Triple} : Advances (.looking [] last false) .goesOn .leaving
  /-- It has not been stopped and can send the next triple. -/
  | look {t : Triple} {page : List Triple} {last : Option Triple} {full : Bool} :
      Advances (.looking (t :: page) last full) .goesOn (.sending t page last full)
  /-- It sends the triple. -/
  | send {t : Triple} {page : List Triple} {last : Option Triple} {full : Bool} :
      Advances (.sending t page last full) (.sends t) (.looking page last full)
  /-- It finds no room, and looks again before it tries again. -/
  | wait {t : Triple} {page : List Triple} {last : Option Triple} {full : Bool} :
      Advances (.sending t page last full) .waits (.looking (t :: page) last full)
  /-- It closes the channel. -/
  | close : Advances .leaving .goesOn .gone
  /-- It is gone. -/
  | rest : Advances .gone .goesOn .gone

/-- **A move of the scan is one of these** if it has not been stopped. -/
theorem advances_produce (hfree : s.stopped = false) :
    task.Advances s.producer (task.deed s) (task.produce s).producer := by
  obtain ⟨producer, channel, consumer, cancelled⟩ := s
  have hjoin : consumer.hasLeft = false := (Bool.or_eq_false_iff.mp hfree).2
  cases producer with
  | reading cursor => exact .read rfl
  | looking page last full =>
    cases page with
    | nil => cases full with
      | true => exact .turn
      | false => exact .leave
    | cons t page =>
      simp only [SelectTask.produce, hfree]
      exact .look
  | sending t page last full =>
    simp only [SelectTask.produce, deed, hjoin, Bool.false_eq_true, if_false]
    split
    case isTrue => exact .send
    case isFalse => exact .wait
  | leaving => exact .close
  | gone => exact .rest

variable (task) in
/-- The piece of the scan that belongs on a page, counted from zero. -/
def piece (i : ℕ) : List Triple :=
  (task.scan.drop (i * task.plan.capacity)).take task.plan.capacity

variable (task) in
/-- How many pages have been read and how many triples have been sent, at the
points of the loop: a full page is sent to its end before the next one is read,
and there is no page behind one that is not full. -/
def Place (pages sent : ℕ) : Producer → Prop
  | .reading _ => sent = pages * task.plan.capacity
  | .looking page _ true => sent + page.length = pages * task.plan.capacity
  | .sending _ page _ true => sent + (page.length + 1) = pages * task.plan.capacity
  | _ => pages = task.scan.length / task.plan.capacity + 1

/-- How many moves have been made by then, if so many were needed: one is owed
as long as the scan has a page before it. -/
def Spent (moves needed : ℕ) : Producer → Prop
  | .looking .. => moves + 1 = needed
  | .gone => needed < moves
  | _ => moves = needed

variable (task) in
/-- **What the first scan has done** by the time it is at a point of its loop, if
nobody has stopped it. -/
structure Done (producer : Producer) (deeds : List Deed) : Prop where
  /-- The pages read are the first pieces of the scan. -/
  pages : pagesRead deeds = (List.range (pagesRead deeds).length).map task.piece
  /-- The triples sent are its front, and it knows what is left. -/
  sent : ∃ left, task.scan = triplesSent deeds ++ left ∧ task.Ahead left false producer
  /-- As many triples have been sent as belong to these pages. -/
  place : task.Place (pagesRead deeds).length (triplesSent deeds).length producer
  /-- It has made the moves for that. -/
  spent : Spent deeds.length (movesFor deeds) producer

variable {deeds : List Deed} {d : Deed} {producer producer' : Producer}

/-- At the beginning nothing has been done. -/
theorem done_start : task.Done task.start.producer [] where
  pages := rfl
  sent := ⟨task.scan, rfl, rfl⟩
  place := (Nat.zero_mul _).symm
  spent := rfl

/-- **The page behind the triples of some full pages is the next piece.** -/
theorem page_eq_piece {pages : ℕ} {sent left : List Triple} {cursor : Option Triple}
    (hscan : task.scan = sent ++ left) (hbehind : task.Behind left cursor)
    (hsent : sent.length = pages * task.plan.capacity) :
    task.memory.page task.access task.lookup cursor task.plan.capacity = task.piece pages := by
  rw [page_of_behind hbehind, piece, hscan, ← hsent, List.drop_left]

/-- **Where a page leads**: from a full page on, some triples more are sent, and
one that is not full is the last. -/
theorem place_piece {pages : ℕ} (hpages : pages * task.plan.capacity ≤ task.scan.length)
    (last : Option Triple) :
    task.Place (pages + 1) (pages * task.plan.capacity) (.looking (task.piece pages) last
      (task.plan.capacity ≤ (task.piece pages).length)) := by
  have hlength : (task.piece pages).length
      = min task.plan.capacity (task.scan.length - pages * task.plan.capacity) := by
    rw [piece, List.length_take, List.length_drop]
  by_cases hfull : task.plan.capacity ≤ (task.piece pages).length
  · rw [decide_eq_true hfull]
    show pages * task.plan.capacity + (task.piece pages).length = (pages + 1) * task.plan.capacity
    rw [Nat.succ_mul]
    omega
  · rw [decide_eq_false hfull]
    have hlast : task.scan.length / task.plan.capacity = pages := by
      refine Nat.div_eq_of_lt_le hpages ?_
      rw [Nat.succ_mul]
      omega
    show pages + 1 = task.scan.length / task.plan.capacity + 1
    rw [hlast]

/-- The next page is the next piece, and no other move reads one. -/
theorem Done.pages_advances (h : task.Done producer deeds)
    (hmove : task.Advances producer d producer') :
    pagesRead (deeds ++ [d])
      = (List.range (pagesRead (deeds ++ [d])).length).map task.piece := by
  have hpages := h.pages
  cases hmove with
  | @read cursor page hpage =>
    obtain ⟨left, hscan, hbehind⟩ := h.sent
    rw [page_eq_piece hscan hbehind h.place] at hpage
    simp only [pagesRead_concat, Deed.page?, Option.toList_some, List.length_append,
      List.length_singleton]
    rw [List.range_succ, List.map_append, ← hpages, hpage]
    rfl
  | _ => simpa [Deed.page?] using hpages

/-- The numbers of pages and of triples still belong together. -/
theorem Done.place_advances (h : task.Done producer deeds)
    (hmove : task.Advances producer d producer') :
    task.Place (pagesRead (deeds ++ [d])).length (triplesSent (deeds ++ [d])).length
      producer' := by
  have hplace := h.place
  rw [pagesRead_concat, triplesSent_concat, List.length_append, List.length_append]
  cases hmove with
  | @read cursor page hpage =>
    obtain ⟨left, hscan, hbehind⟩ := h.sent
    have hplace : (triplesSent deeds).length = (pagesRead deeds).length * task.plan.capacity :=
      hplace
    rw [page_eq_piece hscan hbehind hplace] at hpage
    rw [hpage]
    have hle : (pagesRead deeds).length * task.plan.capacity ≤ task.scan.length := by
      rw [hscan, List.length_append, hplace]
      exact Nat.le_add_right _ _
    have hnext := place_piece hle (task.piece (pagesRead deeds).length).getLast?
    rw [← hplace] at hnext
    exact hnext
  | turn => exact hplace
  | leave => exact hplace
  | @look t page last full => cases full <;> exact hplace
  | @send t page last full =>
    cases full with
    | false => exact hplace
    | true =>
      show (triplesSent deeds).length + 1 + page.length = _
      rw [Nat.add_assoc, Nat.add_comm 1]
      exact hplace
  | @wait t page last full => cases full <;> exact hplace
  | close => exact hplace
  | rest => exact hplace

/-- The moves made are still those that were needed. -/
theorem Done.spent_advances (h : task.Done producer deeds)
    (hmove : task.Advances producer d producer') :
    Spent (deeds ++ [d]).length (movesFor (deeds ++ [d])) producer' := by
  have hspent := h.spent
  rw [movesFor_concat, List.length_append, List.length_singleton]
  cases hmove <;> simp only [Spent] at hspent ⊢ <;> simp <;> omega

/-- **A move keeps what is known of the scan** if nobody has stopped it. -/
theorem Done.produce (hcap : 0 < task.plan.capacity) (h : task.Done s.producer deeds)
    (hfree : s.stopped = false) :
    task.Done (task.produce s).producer (deeds ++ [task.deed s]) where
  pages := h.pages_advances (advances_produce hfree)
  sent := by
    obtain ⟨left, hscan, hahead⟩ := h.sent
    obtain ⟨later, rfl, hlater⟩ := Ahead.produce hcap (hfree ▸ hahead)
    exact ⟨later, by rw [triplesSent_concat, List.append_assoc, hscan], hfree ▸ hlater⟩
  place := h.place_advances (advances_produce hfree)
  spent := h.spent_advances (advances_produce hfree)

/-- A scan that is gone stays so. -/
theorem Done.rest (h : task.Done .gone deeds) : task.Done .gone (deeds ++ [.goesOn]) where
  pages := h.pages_advances .rest
  sent := by
    simp only [triplesSent_concat, Deed.sent?, Option.toList_none, List.append_nil]
    exact h.sent
  place := h.place_advances .rest
  spent := h.spent_advances .rest

/-- **What the first scan has done after some moves** if nobody has stopped it. -/
theorem done_after (hcap : 0 < task.plan.capacity) (hfree : task.RunsFreely moves) :
    task.Done (task.after moves).producer (task.deeds moves) := by
  -- only a move of the scan itself does anything
  induction moves using List.reverseRecOn with
  | nil => exact done_start
  | append_singleton moves move ih =>
    have h := ih hfree.of_append
    rw [deeds_concat, after_append, List.foldl_cons, List.foldl_nil]
    cases move with
    | produce =>
      cases hstopped : (task.after moves).stopped with
      | false => exact h.produce hcap hstopped
      | true =>
        have hgone := hfree moves (List.prefix_append moves _) hstopped
        rw [if_pos rfl, SelectTask.move]
        generalize task.after moves = s at h hgone
        obtain ⟨producer, channel, consumer, cancelled⟩ := s
        cases hgone
        exact h.rest
    | consume =>
      rw [if_neg Move.noConfusion, List.append_nil, SelectTask.move, producer_consume]
      exact h
    | cancel =>
      rw [if_neg Move.noConfusion, List.append_nil]
      exact h

/-! ## The whole scan -/

/-- No more than the scan is sent. -/
theorem Done.length_sent_le (h : task.Done producer deeds) :
    (triplesSent deeds).length ≤ task.scan.length := by
  obtain ⟨left, hscan, -⟩ := h.sent
  rw [hscan, List.length_append]
  exact Nat.le_add_right _ _

/-- Of the pages read, all but the last one were full. -/
theorem Done.length_pages_le (hcap : 0 < task.plan.capacity) (h : task.Done producer deeds) :
    (pagesRead deeds).length ≤ task.scan.length / task.plan.capacity + 1 := by
  obtain ⟨left, hscan, hahead⟩ := h.sent
  have hplace := h.place
  have hlength := congrArg List.length hscan
  rw [List.length_append] at hlength
  have hfull : (pagesRead deeds).length * task.plan.capacity ≤ task.scan.length →
      (pagesRead deeds).length ≤ task.scan.length / task.plan.capacity + 1 := fun hle =>
    ((Nat.le_div_iff_mul_le hcap).mpr hle).trans (Nat.le_succ _)
  cases producer with
  | reading cursor => exact hfull (hplace ▸ h.length_sent_le)
  | looking page last full =>
    cases full with
    | false => exact le_of_eq hplace
    | true =>
      obtain ⟨behind, rfl, -⟩ := hahead
      rw [List.length_append] at hlength
      have hplace : _ + page.length = _ * task.plan.capacity := hplace
      exact hfull (by omega)
  | sending t page last full =>
    cases full with
    | false => exact le_of_eq hplace
    | true =>
      obtain ⟨behind, rfl, -⟩ := hahead
      rw [List.length_append, List.length_cons] at hlength
      have hplace : _ + (page.length + 1) = _ * task.plan.capacity := hplace
      exact hfull (by omega)
  | leaving => exact le_of_eq hplace
  | gone => exact le_of_eq hplace

/-- What a page has is a piece of the scan, so it has no more triples than asked
for. -/
theorem Done.length_page_le (h : task.Done producer deeds) {page : List Triple}
    (hpage : page ∈ pagesRead deeds) : page.length ≤ task.plan.capacity := by
  rw [h.pages] at hpage
  obtain ⟨i, -, rfl⟩ := List.mem_map.mp hpage
  exact List.length_take_le _ _

/-- **A scan that is gone has read and sent everything.** -/
theorem Done.of_gone (h : task.Done .gone deeds) :
    (pagesRead deeds).length = task.scan.length / task.plan.capacity + 1
      ∧ triplesSent deeds = task.scan := by
  obtain ⟨left, hscan, hahead⟩ := h.sent
  rw [hahead rfl, List.append_nil] at hscan
  exact ⟨h.place, hscan.symm⟩

/-- **A scan is gone once it has made more moves than it needs.** -/
theorem Done.gone_iff (hcap : 0 < task.plan.capacity) (h : task.Done producer deeds) :
    producer = .gone ↔ 2 * (task.scan.length / task.plan.capacity + 1 + task.scan.length
      + deeds.count .waits) < deeds.length := by
  have hpages := h.length_pages_le hcap
  have hsent := h.length_sent_le
  have hspent := h.spent
  unfold movesFor at hspent
  constructor
  · rintro rfl
    obtain ⟨hpages, hsent⟩ := h.of_gone
    rw [hpages, hsent] at hspent
    exact hspent
  · intro hmoves
    cases producer with
    | gone => rfl
    | _ =>
      unfold Spent at hspent
      omega

/-- **A scan that is gone does nothing more**, whoever moves. -/
theorem deedsFrom_of_gone (hgone : s.producer = .gone) (later : List Move) :
    (later.foldl task.move s).producer = .gone
      ∧ ∀ d ∈ task.deedsFrom s later, d = .goesOn := by
  induction later generalizing s with
  | nil => exact ⟨hgone, nofun⟩
  | cons move later ih =>
    have hdeed : task.deed s = .goesOn := by rw [deed, hgone]
    have hnext : (task.move s move).producer = .gone := by
      cases move with
      | produce => rw [SelectTask.move, SelectTask.produce, hgone]; exact hgone
      | consume => rw [SelectTask.move, producer_consume, hgone]
      | cancel => exact hgone
    obtain ⟨hlater, hdeeds⟩ := ih hnext
    refine ⟨hlater, fun d hd => ?_⟩
    rw [deedsFrom, hdeed, List.mem_append] at hd
    rcases hd with hd | hd
    · split at hd
      · exact List.mem_singleton.mp hd
      · exact absurd hd List.not_mem_nil
    · exact hdeeds d hd

/-- So no page and no triple comes behind the last. -/
theorem nothing_behind_gone (hgone : (task.after moves).producer = .gone) (later : List Move) :
    (task.after (moves ++ later)).producer = .gone
      ∧ pagesRead (task.deeds (moves ++ later)) = pagesRead (task.deeds moves)
      ∧ triplesSent (task.deeds (moves ++ later)) = triplesSent (task.deeds moves) := by
  obtain ⟨hlater, hdeeds⟩ := deedsFrom_of_gone hgone later
  have hpages : pagesRead (task.deedsFrom (task.after moves) later) = [] :=
    List.filterMap_eq_nil_iff.mpr fun d hd => by rw [hdeeds d hd]; rfl
  have hsent : triplesSent (task.deedsFrom (task.after moves) later) = [] :=
    List.filterMap_eq_nil_iff.mpr fun d hd => by rw [hdeeds d hd]; rfl
  rw [after_append, deeds_append, pagesRead_append, triplesSent_append, hpages, hsent,
    List.append_nil, List.append_nil]
  exact ⟨hlater, rfl, rfl⟩

/-! ## Room in the channel -/

/-- **The channel has room for as many triples as a page**, and it never has
more. -/
theorem length_channel_le (moves : List Move) :
    (task.after moves).channel.length ≤ task.plan.capacity := by
  induction moves using List.reverseRecOn with
  | nil => exact Nat.zero_le _
  | append_singleton moves move ih =>
    rw [after_append, List.foldl_cons, List.foldl_nil]
    cases move with
    | produce =>
      rw [SelectTask.move, channel_produce, List.length_append]
      fun_cases task.deed (task.after moves) with
      | case3 t _ _ _ _ _ hroom => exact hroom
      | _ => exact ih
    | consume => exact (channel_consume_suffix _).length_le.trans ih
    | cancel => exact ih

/-- **The scan waits only while the channel is full.** -/
theorem length_channel_of_waits (h : task.deed (task.after moves) = .waits) :
    (task.after moves).channel.length = task.plan.capacity := by
  refine le_antisymm (length_channel_le moves) ?_
  revert h
  fun_cases task.deed (task.after moves) with
  | case4 _ _ _ _ _ _ hfull => exact fun _ => le_of_not_gt hfull
  | _ => exact nofun

/-! ## Queries without a limit -/

/-- A join that extends rows does not leave as long as more rows are wanted. -/
theorem hasLeft_extendNext {work : List (Row × List ScanStep)} {c c' : Collector}
    (h : Collector.takeAll (task.rowsAhead work) c = .ok (true, c')) :
    (task.extendNext false c work).hasLeft = false := by
  cases work with
  | nil => rfl
  | cons head work =>
    obtain ⟨row, steps⟩ := head
    cases steps with
    | cons step steps => rfl
    | nil =>
      rw [rowsAhead_complete, Collector.takeAll_cons] at h
      simp only [SelectTask.extendNext]
      cases hpush : c.push row with
      | error e =>
        rw [hpush] at h
        cases h
      | ok result =>
        obtain ⟨more, c₁⟩ := result
        rw [hpush] at h
        cases more with
        | false => cases h
        | true => rfl

/-- **A join without a limit leaves only when the scan is gone**, unless the run
is cancelled. -/
theorem gone_of_hasLeft (hp : task.plan.Sound) (hlimit : task.plan.limit = none)
    (hcancel : .cancel ∉ moves) (hleft : (task.after moves).consumer.hasLeft = true) :
    (task.after moves).producer = .gone := by
  -- it leaves with a move of its own, and the scan stays as it is meanwhile
  induction moves using List.reverseRecOn with
  | nil => cases hleft
  | append_singleton moves move ih =>
    rw [List.mem_append, List.mem_singleton, not_or] at hcancel
    have ih := ih hcancel.1
    have hfree : (task.after moves).cancelled = false :=
      Bool.eq_false_iff.mpr (mt cancelled_after.mp hcancel.1)
    obtain ⟨taken, left, haccounts⟩ := exists_accounts_after hp.capacity_pos moves
    rw [after_append, List.foldl_cons, List.foldl_nil] at hleft ⊢
    generalize task.after moves = s at *
    cases move with
    | cancel => exact absurd rfl hcancel.2
    | produce =>
      rw [SelectTask.move, consumer_produce] at hleft
      rw [SelectTask.move, SelectTask.produce, ih hleft]
      exact ih hleft
    | consume =>
      rw [SelectTask.move, producer_consume]
      obtain ⟨producer, channel, consumer, cancelled⟩ := s
      cases hfree
      cases consumer with
      | looking c => cases hleft
      | receiving c =>
        cases channel with
        | cons t channel => cases hleft
        | nil =>
          cases producer with
          | gone => rfl
          | _ => cases hleft
      | extending work c =>
        have hprefix : taken <+: task.scan :=
          ⟨channel ++ left, by rw [haccounts.scan, List.append_assoc]⟩
        obtain ⟨more, c', htake, -⟩ := takeAll_rowsOf hp hprefix
        obtain ⟨rfl, -⟩ := Collector.takeAll_of_unlimited hlimit htake
        have hahead := hasLeft_extendNext (haccounts.consumer.symm.trans htake)
        rw [show (task.extendNext false c work).hasLeft = true from hleft] at hahead
        cases hahead
      | closing result => exact ih rfl
      | returned result => exact ih rfl

/-- **Nobody stops the scan of a sound query without a limit** unless the run is
cancelled. -/
theorem runsFreely_of_unlimited (hp : task.plan.Sound) (hlimit : task.plan.limit = none)
    (hcancel : .cancel ∉ moves) : task.RunsFreely moves := by
  intro before hbefore hstopped
  have hcancel : .cancel ∉ before := mt hbefore.mem hcancel
  have hfree : (task.after before).cancelled = false :=
    Bool.eq_false_iff.mpr (mt cancelled_after.mp hcancel)
  rw [Parties.stopped, hfree, Bool.false_or] at hstopped
  exact gone_of_hasLeft hp hlimit hcancel hstopped

/-- **When a query without a limit has been answered, its first scan has been read
to the end**: one page more than full pages fit into it, whatever the order of
the moves was. -/
theorem pages_of_answer (hp : task.plan.Sound) (hlimit : task.plan.limit = none)
    (hcancel : .cancel ∉ moves) {table : Table} (h : (task.after moves).answer? = some table) :
    (pagesRead (task.deeds moves)).length = task.scan.length / task.plan.capacity + 1
      ∧ triplesSent (task.deeds moves) = task.scan := by
  have hleft : (task.after moves).consumer.hasLeft = true := by
    have hresult := result?_of_answer? h
    cases hconsumer : (task.after moves).consumer with
    | closing result => rfl
    | returned result => rfl
    | _ =>
      rw [hconsumer] at hresult
      cases hresult
  have hdone := done_after hp.capacity_pos (runsFreely_of_unlimited hp hlimit hcancel)
  rw [gone_of_hasLeft hp hlimit hcancel hleft] at hdone
  exact hdone.of_gone

/-- Every lookup is that of a first scan, on every store, with pages of any size
and however they are found. -/
theorem exists_task (m : MemoryStore) (access : Access) (l : Lookup) (c : ℕ) :
    ∃ task : SelectTask, task.memory = m ∧ task.access = access ∧ task.lookup = l
      ∧ task.plan.capacity = c := by
  let term (node : Option Node) : SlotTerm := node.elim (.slot 0) .const
  let step : ScanStep := ⟨⟨term l.subject, term l.predicate, term l.object⟩, 0, 0⟩
  let plan : SelectPlan := ⟨[step], 1, [], [], false, none, c⟩
  have hterm : ∀ node : Option Node, (term node).wanted (Row.empty 1) = node := fun node => by
    cases node <;> rfl
  refine ⟨⟨plan, step, [], rfl, m, access⟩, rfl, rfl, ?_, rfl⟩
  show (⟨_, _, _⟩ : Lookup) = l
  rw [hterm, hterm, hterm]

end SelectTask

/-- **The first scan is read page by page to its end.** Whatever the store has
and however it finds pages, whatever the lookup is, in whatever order the moves
come: as long as nobody stops the scan, no page has more triples than asked
for, what is sent is a front part of the scan, and the scan waits only while
the channel is full. It is gone once it has made two moves for each page, for
each triple and for each time it had to wait, and one more. Then it has read one
page more than full pages fit into the scan, it has sent each triple that the
lookup accepts once, in the order of the scan, and it does nothing any more.

If the query is sound and has no limit, then the two sides taking turns ask the
store for just as many pages: a fault in wait lets them pass. -/
theorem first_scan_read_in_pages (task : SelectTask) (hcap : 1 ≤ task.plan.capacity)
    {moves : List Move} (hfree : task.RunsFreely moves) :
    let c := task.plan.capacity
    let m := (task.memory.triples.contents.filter fun t => task.lookup.accepts t = true).card
    let deeds := task.deeds moves
    (∀ page ∈ pagesRead deeds, page.length ≤ c)
      ∧ (pagesRead deeds).length ≤ m / c + 1
      ∧ triplesSent deeds <+: task.memory.scan task.lookup
      ∧ (∀ before, before <+: moves → task.deed (task.after before) = .waits →
          (task.after before).channel.length = c)
      ∧ ((task.after moves).producer = .gone
          ↔ 2 * (m / c + 1 + m + deeds.count .waits) < deeds.length)
      ∧ ((task.after moves).producer = .gone →
          (pagesRead deeds).length = m / c + 1
          ∧ triplesSent deeds = task.memory.scan task.lookup
          ∧ (∀ t, (triplesSent deeds).count t
              = if t ∈ task.memory.triples ∧ task.lookup.accepts t = true then 1 else 0)
          ∧ ∀ later, (task.after (moves ++ later)).producer = .gone
              ∧ pagesRead (task.deeds (moves ++ later)) = pagesRead deeds
              ∧ triplesSent (task.deeds (moves ++ later)) = triplesSent deeds)
      ∧ (task.plan.Sound → task.plan.limit = none →
          ∀ (watched : Bool) (s : Session) (strike : Strike) (pages : ℕ),
            s.cancelled = false → s.store.memory = task.memory →
            task.plan.run watched (s.awaiting strike (pages + (m / c + 1)))
              = (.finished (.ok (task.plan.fullAnswer task.memory)),
                  s.awaiting strike pages)) := by
  intro c m deeds
  have hdone : task.Done (task.after moves).producer deeds := SelectTask.done_after hcap hfree
  have hm : task.scan.length = m := task.memory.length_scan_eq_card task.lookup
  have hgone := hdone.gone_iff hcap
  have hpages := hdone.length_pages_le hcap
  rw [hm] at hgone hpages
  obtain ⟨left, hscan, -⟩ := hdone.sent
  refine ⟨fun page => hdone.length_page_le, hpages, ⟨left, hscan.symm⟩,
    fun before _ => SelectTask.length_channel_of_waits, hgone, fun hend => ?_, ?_⟩
  · rw [hend] at hdone
    obtain ⟨hpages, hsent⟩ := hdone.of_gone
    refine ⟨hm ▸ hpages, hsent, fun t => ?_, SelectTask.nothing_behind_gone hend⟩
    rw [hsent]
    exact (task.memory.nodup_scan task.lookup).count.trans (if_congr MemoryStore.mem_scan rfl rfl)
  · intro hp hlimit watched s strike pages hs hmemory
    have hrun := hp.run_awaiting strike hlimit watched task.steps_eq hs pages
    have hlength : (task.memory.scan
        (task.first.pattern.lookup (Row.empty task.plan.slotCount))).length = m := hm
    rwa [hmemory, hlength] at hrun

/-- A query for the friends in a store that finds pages by scanning. Two triples
are accepted, and a page has one. -/
def SelectTask.friends : SelectTask where
  plan :=
    { steps := [⟨⟨.slot 0, .const ⟨"knows"⟩, .slot 1⟩, 0, 2⟩]
      slotCount := 2
      columns := ["?s"]
      projection := [0]
      distinct := false
      limit := none
      capacity := 1 }
  first := ⟨⟨.slot 0, .const ⟨"knows"⟩, .slot 1⟩, 0, 2⟩
  rest := []
  steps_eq := rfl
  access := .scanning
  memory :=
    { name := "people"
      triples := (Indexes.insertAll ∅ [⟨⟨"a"⟩, ⟨"knows"⟩, ⟨"b"⟩⟩, ⟨⟨"a"⟩, ⟨"name"⟩, ⟨"A"⟩⟩,
        ⟨⟨"b"⟩, ⟨"knows"⟩, ⟨"a"⟩⟩]).2 }

/-- Its scan binds its two slots. -/
theorem SelectTask.sound_friends : SelectTask.friends.plan.Sound where
  steps_ne_nil := List.cons_ne_nil _ _
  covers := ⟨by decide, by decide⟩
  projection_lt := by decide
  capacity_pos := Nat.one_pos

/-- Behind the two pages that the triples fill an empty one is read. The scan has
to wait for room on the way, and the query is answered. So it is if the two
sides take turns, and then a fault that lets eight pages pass first has five left
to wait for. -/
theorem first_scan_read_in_pages_of_full_pages :
    let task := SelectTask.friends
    let moves := (List.replicate 13 [Move.produce, .produce, .produce, .produce, .consume]).flatten
    1 ≤ task.plan.capacity ∧ task.RunsFreely moves
      ∧ (task.after moves).answer? = some ⟨["?s"], [[⟨"b"⟩], [⟨"a"⟩]]⟩
      ∧ 0 < (task.deeds moves).count .waits
      ∧ (pagesRead (task.deeds moves)).length = 2 / 1 + 1
      ∧ triplesSent (task.deeds moves)
        = [⟨⟨"b"⟩, ⟨"knows"⟩, ⟨"a"⟩⟩, ⟨⟨"a"⟩, ⟨"knows"⟩, ⟨"b"⟩⟩]
      ∧ (let s := Session.begin { memory := task.memory, access := task.access }
        task.plan.run true (s.awaiting .cancel 8)
          = (.finished (.ok (task.plan.fullAnswer task.memory)), s.awaiting .cancel 5)) := by
  intro task moves
  have hfree : task.RunsFreely moves := by
    have hinits : ∀ before ∈ moves.inits, (task.after before).stopped = true →
        (task.after before).producer = .gone := by decide +kernel
    exact fun before hbefore => hinits before (List.mem_inits before moves |>.mpr hbefore)
  have hgone : (task.after moves).producer = .gone := by decide +kernel
  obtain ⟨-, -, -, -, -, hend, hrun⟩ := first_scan_read_in_pages task (le_refl 1) hfree
  obtain ⟨hpages, hsent, -⟩ := hend hgone
  have hm : (task.memory.triples.contents.filter
      fun t => task.lookup.accepts t = true).card = 2 := by
    decide +kernel
  rw [hm] at hpages hrun
  refine ⟨le_refl 1, hfree, by decide +kernel, by decide +kernel, hpages, hsent.trans ?_, ?_⟩
  · decide +kernel
  · intro s
    have hrun := hrun SelectTask.sound_friends rfl true s .cancel 5 rfl rfl
    have hpatience : 5 + (2 / task.plan.capacity + 1) = 8 := by decide
    rw [hpatience] at hrun
    exact hrun

end TripleScript
