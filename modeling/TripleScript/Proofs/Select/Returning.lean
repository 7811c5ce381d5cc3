import Mathlib.Algebra.GroupWithZero.Nat
import TripleScript.Proofs.Select.Exposure

/-!
# Every query returns

The two sides of a query can keep each other waiting: the scan finds no room in the
channel, and the join finds nothing in it. Each of them goes on asking then, and
such moves come to nothing. That they do not do so for ever, whatever fails and
whoever cancels the run, rests on two facts.

Everything else that a party does leaves less to be done (`SelectTask.owed`): a page
is read, a triple is sent or taken, a row is extended, a loop is left. Nothing ever
adds to it, least of all a failure.

And as long as the join has not returned, one of the two gets on by its next move or
by the one after that (`SelectTask.exists_within`), for a full channel has something
to take and an empty one has room. What the other does meanwhile cannot keep it from
getting on (`SelectTask.Within.move`).

So a query returns if both sides are let move again and again, in whatever order
(`SelectTask.exists_returned_of_fair`).
-/

namespace TripleScript

namespace SelectTask

variable {task : SelectTask} {s : ExposedParties} {fault : List Fault} {moves : List Move}
  {taken left : List Triple}

/-! ## What is still to be done -/

/-- How many moves it takes to complete a row by some scans: one for each row on the
way, that one included. -/
def movesOf (task : SelectTask) : List ScanStep → Row → ℕ
  | [], _ => 1
  | step :: steps, row =>
    1 + (((task.memory.scan (step.pattern.lookup row)).filterMap
      (step.pattern.bind · row)).map (task.movesOf steps)).sum

variable (task) in
/-- How many moves the rows take that are still to be extended. -/
def movesAhead (work : List (Row × List ScanStep)) : ℕ :=
  (work.map fun (row, steps) => task.movesOf steps row).sum

variable (task) in
/-- A scan is one of these moves. -/
theorem movesAhead_extended (row : Row) (step : ScanStep) (steps : List ScanStep)
    (work : List (Row × List ScanStep)) :
    task.movesAhead (task.extended row step steps ++ work) + 1
      = task.movesAhead ((row, step :: steps) :: work) := by
  have hrows : ∀ rows : List Row, task.movesAhead (rows.map (·, steps))
      = (rows.map (task.movesOf steps)).sum := fun rows => by
    rw [movesAhead, List.map_map]
    rfl
  rw [movesAhead, List.map_append, List.sum_append, ← movesAhead, ← movesAhead, extended, hrows]
  show _ = task.movesOf (step :: steps) row + task.movesAhead work
  rw [movesOf]
  omega

/-- What the scan still has to do with the triples that are left. A look at whether
it has been stopped and a send that finds no room do not count, and so a triple is
worth the page that may have to be read before it and the move that sends it. -/
def scanOwes (left : ℕ) : Producer → ℕ
  | .reading _ => 3 * left + 3
  | .looking [] _ full => 3 * left + if full then 4 else 2
  | .looking (_ :: _) _ _ => 3 * left + 2
  | .sending .. => 3 * left + 2
  | .leaving => 1
  | .gone => 0

variable (task) in
/-- What the join still has to do with what it has taken, and to return. A look at
the run and one into an empty channel do not count. -/
def joinOwes : Consumer → ℕ
  | .looking _ => 2
  | .receiving _ => 2
  | .extending work _ => 3 + task.movesAhead work
  | .closing _ => 1
  | .returned _ => 0

variable (task) in
/-- What the join still has to do with some triples that it has not taken. -/
def triplesOwe (ts : List Triple) : ℕ :=
  (ts.map fun t => 2 + task.movesAhead (task.begun t)).sum

variable (task) in
/-- **What is still to be done** when some triples of the scan are left. -/
def owed (s : Parties) (left : List Triple) : ℕ :=
  scanOwes left.length s.producer + task.triplesOwe (s.channel ++ left) + task.joinOwes s.consumer

/-! ## Who gets on -/

variable (task) in
/-- **The scan gets on** after at most `n` moves of its own that get it nowhere. -/
def ScanWithin (n : ℕ) (s : Parties) : Prop :=
  match s.producer with
  | .gone => False
  | .looking (_ :: _) _ _ => s.stopped = true ∨ 0 < n ∧ s.channel.length < task.plan.capacity
  | .sending .. => s.consumer.hasLeft = true ∨ s.channel.length < task.plan.capacity
      ∨ 0 < n ∧ s.cancelled = true
  | _ => True

/-- **The join gets on** after at most `n` moves of its own that get it nowhere. -/
def JoinWithin (n : ℕ) (s : Parties) : Prop :=
  match s.consumer with
  | .looking _ => s.cancelled = true ∨ 0 < n ∧ (s.channel ≠ [] ∨ s.producer = .gone)
  | .receiving _ => s.channel ≠ [] ∨ s.producer = .gone
  | .extending .. => True
  | .closing _ => s.producer = .gone
  | .returned _ => False

/-- **A move gets a party on**: less has to be done than before, or else the party
gets on sooner. In no case there is more to do. -/
def GetsOn (owed' owed : ℕ) (within within' : ℕ → Prop) : Prop :=
  owed' ≤ owed ∧ ∀ n, within n → owed' < owed ∨ ∃ m < n, within' m

theorem GetsOn.of_lt {owed' owed : ℕ} {within within' : ℕ → Prop} (h : owed' < owed) :
    GetsOn owed' owed within within' :=
  ⟨h.le, fun _ _ => .inl h⟩

/-- What others have to do is not touched. -/
theorem GetsOn.add {owed' owed : ℕ} {within within' : ℕ → Prop}
    (h : GetsOn owed' owed within within') (n : ℕ) :
    GetsOn (owed' + n) (owed + n) within within' :=
  ⟨Nat.add_le_add_right h.1 n, fun k hk => (h.2 k hk).imp_left fun h => Nat.add_lt_add_right h n⟩

/-- A scan with a page before it has the triples that are left to hand on, whatever the
page is. -/
theorem scanOwes_looking (page : List Triple) (last : Option Triple) (full : Bool) (l : ℕ) :
    scanOwes l (.looking page last full) ≤ 3 * l + 4 := by
  cases page with
  | nil => cases full <;> exact Nat.add_le_add_left (by decide) _
  | cons t page => exact Nat.add_le_add_left (by decide) _

/-- Reading a page is getting on. -/
theorem scanOwes_page (hcap : 0 < task.plan.capacity) (page : List Triple) (l : ℕ) :
    scanOwes l (.looking page page.getLast? (task.plan.capacity ≤ page.length)) < 3 * l + 3 := by
  cases page with
  | nil =>
    rw [List.length_nil, decide_eq_false hcap.not_ge]
    exact Nat.lt_succ_self _
  | cons t page => exact Nat.lt_succ_self _

/-- **A move of the scan gets it on**, unless it asks the store. -/
theorem getsOn_produce {s : Parties} {l l' : ℕ} (hquiet : ∀ after, s.producer ≠ .reading after)
    (hlength : s.channel.length + l = (task.produce s).channel.length + l') :
    GetsOn (scanOwes l' (task.produce s).producer) (scanOwes l s.producer)
      (task.ScanWithin · s) (task.ScanWithin · (task.produce s)) := by
  obtain ⟨producer, channel, consumer, cancelled⟩ := s
  cases producer with
  | reading after => exact absurd rfl (hquiet after)
  | looking page last full =>
    obtain rfl : l = l' := by cases page <;> exact Nat.add_left_cancel hlength
    cases page with
    | nil =>
      cases full with
      | true => exact .of_lt (show 3 * l + 3 < 3 * l + 4 from Nat.lt_succ_self _)
      | false => exact .of_lt (show 1 < 3 * l + 2 by omega)
    | cons t page =>
      -- a scan that is stopped leaves; otherwise it has lost one move
      by_cases hstopped : (cancelled || consumer.hasLeft) = true
      · simp only [SelectTask.produce, Parties.stopped, hstopped, if_true]
        exact .of_lt (show 1 < 3 * l + 2 by omega)
      · simp only [SelectTask.produce, Parties.stopped, hstopped]
        refine ⟨le_refl (3 * l + 2), fun n h => .inr ?_⟩
        obtain ⟨hn, hroom⟩ := Or.resolve_left h hstopped
        exact ⟨0, hn, .inr (.inl hroom)⟩
  | sending t page last full =>
    by_cases hleft : consumer.hasLeft = true
    · simp only [SelectTask.produce, hleft, if_true]
      exact .of_lt (show 1 < 3 * l + 2 by omega)
    · by_cases hroom : channel.length < task.plan.capacity
      · simp only [SelectTask.produce, hleft, hroom, if_true, Bool.false_eq_true, if_false,
          List.length_append, List.length_singleton] at hlength ⊢
        have hpage := scanOwes_looking page last full l'
        exact .of_lt (show _ < 3 * l + 2 by omega)
      · simp only [SelectTask.produce, hleft, hroom, Bool.false_eq_true, if_false] at hlength ⊢
        obtain rfl := Nat.add_left_cancel hlength
        refine ⟨le_refl (3 * l + 2), fun n h => .inr ?_⟩
        obtain ⟨hn, hc⟩ := (Or.resolve_left h hleft).resolve_left hroom
        exact ⟨0, hn, .inl (Bool.or_eq_true_iff.mpr (.inl hc))⟩
  | leaving => exact .of_lt Nat.one_pos
  | gone => exact ⟨le_refl _, fun _ => False.elim⟩

/-- A move of a join that extends rows gets it on. -/
theorem joinOwes_extendNext (cancelled : Bool) (c : Collector)
    (work : List (Row × List ScanStep)) :
    task.joinOwes (task.extendNext cancelled c work) < 3 + task.movesAhead work := by
  have hone : ∀ row work, task.movesAhead ((row, []) :: work) = 1 + task.movesAhead work :=
    fun _ _ => rfl
  fun_cases SelectTask.extendNext task cancelled c work with
  | case1 => exact Nat.lt_succ_self _
  | case2 row work e hpush => exact show 1 < _ by omega
  | case3 row work c' hpush => exact show 1 < _ by omega
  | case4 row work c' hpush =>
    rw [hone]
    exact show 3 + _ < _ by omega
  | case5 => exact show 1 < _ by omega
  | case6 row step steps work =>
    have hscan := task.movesAhead_extended row step steps work
    exact show 3 + _ < _ by omega

/-- **A move of the join gets it on.** -/
theorem getsOn_consume (s : Parties) :
    GetsOn (task.triplesOwe (task.consume s).channel + task.joinOwes (task.consume s).consumer)
      (task.triplesOwe s.channel + task.joinOwes s.consumer)
      (JoinWithin · s) (JoinWithin · (task.consume s)) := by
  obtain ⟨producer, channel, consumer, cancelled⟩ := s
  cases consumer with
  | looking c =>
    cases cancelled with
    | true => exact .of_lt (Nat.lt_succ_self _)
    | false =>
      refine ⟨le_refl _, fun n h => .inr ?_⟩
      obtain ⟨hn, hready⟩ := Or.resolve_left h Bool.false_ne_true
      exact ⟨0, hn, hready⟩
  | receiving c =>
    cases channel with
    | cons t channel =>
      have htriple : task.triplesOwe (t :: channel)
          = 2 + task.movesAhead (task.begun t) + task.triplesOwe channel := rfl
      refine .of_lt ?_
      show task.triplesOwe channel + (3 + task.movesAhead (task.begun t))
        < task.triplesOwe (t :: channel) + 2
      omega
    | nil =>
      cases producer with
      | gone => exact .of_lt (Nat.lt_succ_self _)
      | _ => exact ⟨le_refl _, fun _ h => absurd (h.resolve_left fun hne => hne rfl) nofun⟩
  | extending work c => exact .of_lt (Nat.add_lt_add_left (joinOwes_extendNext cancelled c work) _)
  | closing result =>
    cases producer with
    | gone => exact .of_lt (Nat.lt_succ_self _)
    | _ => exact ⟨le_refl _, fun _ => nofun⟩
  | returned result => exact ⟨le_refl _, fun _ => False.elim⟩

/-! ## With requests to the store -/

theorem triplesOwe_append (ts us : List Triple) :
    task.triplesOwe (ts ++ us) = task.triplesOwe ts + task.triplesOwe us := by
  rw [triplesOwe, List.map_append, List.sum_append]
  rfl

/-- **A move of the scan gets it on**, and so does a page that fails. -/
theorem getsOn_exposedProduce (hcap : 0 < task.plan.capacity) {later : List Triple}
    (hscan : s.channel ++ left = (task.exposedProduce s).channel ++ later) :
    GetsOn (task.owed (task.exposedProduce s).toParties later) (task.owed s.toParties left)
      (task.ScanWithin · s.toParties) (task.ScanWithin · (task.exposedProduce s).toParties) := by
  have hlength := congrArg List.length hscan
  rw [List.length_append, List.length_append] at hlength
  unfold owed
  rw [← hscan, consumer_exposedProduce]
  refine .add (.add ?_ _) _
  revert hlength
  fun_cases SelectTask.exposedProduce task s with
  | case1 after hproducer e session hpage =>
    intro hlength
    rw [hproducer]
    exact .of_lt (show 1 < 3 * left.length + 3 by omega)
  | case2 after hproducer page session hpage =>
    intro hlength
    rw [hproducer]
    obtain hlength := Nat.add_left_cancel hlength
    rw [hlength]
    exact .of_lt (scanOwes_page hcap page _)
  | case3 _ hquiet => exact getsOn_produce hquiet

/-- **A move of the join gets it on**, and so does a scan that fails. -/
theorem getsOn_exposedConsume (hmemory : s.store.memory = task.memory) :
    GetsOn (task.owed (task.exposedConsume s).toParties left) (task.owed s.toParties left)
      (JoinWithin · s.toParties) (JoinWithin · (task.exposedConsume s).toParties) := by
  have hsuffices : GetsOn (task.triplesOwe (task.exposedConsume s).channel
        + task.joinOwes (task.exposedConsume s).consumer)
      (task.triplesOwe s.channel + task.joinOwes s.consumer)
      (JoinWithin · s.toParties) (JoinWithin · (task.exposedConsume s).toParties) := by
    fun_cases SelectTask.exposedConsume task s with
    | case1 row step steps work c hconsumer hc =>
      rw [hconsumer]
      exact .of_lt (Nat.add_lt_add_left (show 1 < 3 + _ by omega) _)
    | case2 row step steps work c hconsumer hc e session hscan =>
      rw [hconsumer]
      exact .of_lt (Nat.add_lt_add_left (show 1 < 3 + _ by omega) _)
    | case3 row step steps work c hconsumer hc ts session hscan extended =>
      have hextended : extended = task.extended row step steps :=
        extended_of_scan hmemory hscan steps
      have hmoves := task.movesAhead_extended row step steps work
      rw [hconsumer, hextended]
      exact .of_lt (Nat.add_lt_add_left (show 3 + _ < 3 + _ by omega) _)
    | case4 c hconsumer hgone =>
      rw [hconsumer]
      exact .of_lt (Nat.lt_succ_self _)
    | case5 c hconsumer hgone =>
      refine ⟨le_refl _, fun n h => ?_⟩
      unfold JoinWithin at h
      rw [hconsumer] at h
      have h : s.producer = .gone := h
      rw [h] at hgone
      exact absurd rfl hgone
    | case6 => exact getsOn_consume s.toParties
  have hadd := hsuffices.add (scanOwes left.length s.producer + task.triplesOwe left)
  unfold owed
  rw [producer_exposedConsume, triplesOwe_append, triplesOwe_append]
  have harith : ∀ a b c d : ℕ, a + (b + c) + d = b + d + (a + c) := by omega
  rw [harith, harith]
  exact hadd

/-! ## Nobody waits for ever -/

/-- What the others do keeps the scan as near to getting on. -/
theorem ScanWithin.of_others {s s' : Parties} {n : ℕ} (h : task.ScanWithin n s)
    (hproducer : s'.producer = s.producer) (hchannel : s'.channel.length ≤ s.channel.length)
    (hcancelled : s.cancelled = true → s'.cancelled = true)
    (hleft : s.consumer.hasLeft = true → s'.consumer.hasLeft = true) : task.ScanWithin n s' := by
  have hstopped : s.stopped = true → s'.stopped = true := fun h =>
    Bool.or_eq_true_iff.mpr ((Bool.or_eq_true_iff.mp h).imp hcancelled hleft)
  unfold ScanWithin at h ⊢
  rw [hproducer]
  revert h
  cases s.producer with
  | looking page last full =>
    cases page with
    | nil => exact id
    | cons t page => exact Or.imp hstopped (And.imp_right hchannel.trans_lt)
  | sending t page last full =>
    exact Or.imp hleft (Or.imp hchannel.trans_lt (And.imp_right hcancelled))
  | _ => exact id

/-- What the others do keeps the join as near to getting on. -/
theorem JoinWithin.of_others {s s' : Parties} {n : ℕ} (h : JoinWithin n s)
    (hconsumer : s'.consumer = s.consumer) (hchannel : s'.channel = [] → s.channel = [])
    (hcancelled : s.cancelled = true → s'.cancelled = true)
    (hgone : s.producer = .gone → s'.producer = .gone) : JoinWithin n s' := by
  have hready : s.channel ≠ [] ∨ s.producer = .gone → s'.channel ≠ [] ∨ s'.producer = .gone :=
    Or.imp (mt hchannel) hgone
  unfold JoinWithin at h ⊢
  rw [hconsumer]
  revert h
  cases s.consumer with
  | looking c => exact Or.imp hcancelled (And.imp_right hready)
  | receiving c => exact hready
  | closing result => exact hgone
  | _ => exact id

variable (task) in
/-- **A party gets on** after at most `n` moves of its own that get it nowhere. -/
def Within (who : Move) (n : ℕ) (s : ExposedParties) : Prop :=
  match who with
  | .produce => task.ScanWithin n s.toParties
  | .consume => JoinWithin n s.toParties
  | .cancel => False

/-- The join gets on with what is in the channel, and when the channel is closed. -/
theorem joinWithin_of_channel {s : Parties} (h : s.channel ≠ [] ∨ s.producer = .gone)
    (hleft : s.consumer.hasLeft = true → s.producer = .gone)
    (hreturned : ∀ result, s.consumer ≠ .returned result) : JoinWithin 1 s := by
  unfold JoinWithin
  cases hconsumer : s.consumer with
  | looking c => exact .inr ⟨Nat.one_pos, h⟩
  | receiving c => exact h
  | extending work c => trivial
  | closing result => exact hleft (by rw [hconsumer]; rfl)
  | returned result => exact absurd hconsumer (hreturned result)

/-- **Until the query has returned, one of its sides gets on.** The scan waits only for
a channel that is full, and the join only for one that is empty. -/
theorem exists_within (hcap : 0 < task.plan.capacity) (hnone : s.returned? = none) :
    ∃ who ≠ .cancel, task.Within who 1 s := by
  have hreturned : ∀ result, s.consumer ≠ .returned result := by
    intro result h
    rw [Parties.returned?, h] at hnone
    cases hnone
  have hjoin : (s.channel ≠ [] ∨ s.producer = .gone) →
      (s.consumer.hasLeft = true → s.producer = .gone) → ∃ who ≠ .cancel, task.Within who 1 s :=
    fun h hleft => ⟨.consume, nofun, joinWithin_of_channel h hleft hreturned⟩
  have hscan : task.ScanWithin 1 s.toParties → ∃ who ≠ .cancel, task.Within who 1 s :=
    fun h => ⟨.produce, nofun, h⟩
  have hnext : s.stopped = true ∨ s.channel.length < task.plan.capacity ∨
      s.channel ≠ [] ∧ s.consumer.hasLeft = false := by
    by_cases hstopped : s.stopped = true
    · exact .inl hstopped
    · rw [Parties.stopped, Bool.or_eq_true, not_or] at hstopped
      refine .inr ((lt_or_ge _ _).imp_right fun hfull => ⟨?_, Bool.eq_false_iff.mpr hstopped.2⟩)
      exact List.length_pos_iff.mp (hcap.trans_le hfull)
  cases hproducer : s.producer with
  | gone => exact hjoin (.inr hproducer) fun _ => hproducer
  | looking page last full =>
    cases page with
    | nil => exact hscan (by rw [ScanWithin, hproducer]; trivial)
    | cons t page =>
      rcases hnext with hstopped | hroom | ⟨hne, hleft⟩
      · exact hscan (by rw [ScanWithin, hproducer]; exact .inl hstopped)
      · exact hscan (by rw [ScanWithin, hproducer]; exact .inr ⟨Nat.one_pos, hroom⟩)
      · exact hjoin (.inl hne) fun h => by rw [hleft] at h; cases h
  | sending t page last full =>
    rcases hnext with hstopped | hroom | ⟨hne, hleft⟩
    · refine hscan ?_
      rw [ScanWithin, hproducer]
      exact (Bool.or_eq_true_iff.mp hstopped).symm.imp_right fun hc => .inr ⟨Nat.one_pos, hc⟩
    · exact hscan (by rw [ScanWithin, hproducer]; exact .inr (.inl hroom))
    · exact hjoin (.inl hne) fun h => by rw [hleft] at h; cases h
  | _ => exact hscan (by rw [ScanWithin, hproducer]; trivial)

/-- A scan that is gone stays so. -/
theorem gone_exposedProduce (h : s.producer = .gone) :
    (task.exposedProduce s).producer = .gone := by
  obtain ⟨⟨producer, channel, consumer, cancelled⟩, store, failure⟩ := s
  cases h
  rfl

/-- The channel is filled from one end. -/
theorem channel_exposedProduce_prefix (s : ExposedParties) :
    s.channel <+: (task.exposedProduce s).channel := by
  fun_cases SelectTask.exposedProduce task s with
  | case3 => exact ⟨_, (channel_produce s.toParties).symm⟩
  | _ => exact List.prefix_refl _

/-- It is emptied from the other. -/
theorem channel_exposedConsume_suffix (s : ExposedParties) :
    (task.exposedConsume s).channel <:+ s.channel := by
  fun_cases SelectTask.exposedConsume task s with
  | case6 => exact channel_consume_suffix s.toParties
  | _ => exact List.suffix_refl _

/-- A join that has left its loop does not come back. -/
theorem hasLeft_exposedConsume (h : s.consumer.hasLeft = true) :
    (task.exposedConsume s).consumer.hasLeft = true := by
  fun_cases SelectTask.exposedConsume task s with
  | case3 row step steps work c hconsumer =>
    rw [hconsumer] at h
    cases h
  | case5 => exact h
  | case6 => exact hasLeft_consume h
  | _ => rfl

/-- **A party that gets on soon is not kept from it by the others.** -/
theorem Within.move {who move : Move} {n : ℕ} (h : task.Within who n s) (hmove : move ≠ who) :
    task.Within who n (task.exposedMove s move) := by
  cases who with
  | cancel => exact h.elim
  | produce =>
    have h : task.ScanWithin n s.toParties := h
    cases move with
    | produce => exact absurd rfl hmove
    | cancel => exact h.of_others rfl le_rfl (fun _ => rfl) id
    | consume =>
      exact h.of_others (producer_exposedConsume s) (channel_exposedConsume_suffix s).length_le
        (undergoes_exposedConsume s).cancelled hasLeft_exposedConsume
  | consume =>
    have h : JoinWithin n s.toParties := h
    cases move with
    | consume => exact absurd rfl hmove
    | cancel => exact h.of_others rfl id (fun _ => rfl) id
    | produce =>
      refine h.of_others (consumer_exposedProduce s) (fun hnil => ?_)
        (undergoes_exposedProduce s).cancelled gone_exposedProduce
      exact List.prefix_nil.mp (hnil ▸ channel_exposedProduce_prefix s)

variable (task fault) in
/-- At most so many moves are owed after some moves. -/
def Owes (moves : List Move) (n : ℕ) : Prop :=
  ∃ taken left, task.ExposedAccounts (task.exposedAfter fault moves) taken left
    ∧ task.owed (task.exposedAfter fault moves).toParties left ≤ n

/-- **A move adds nothing to what is owed**, and it takes something off if it gets a
party on. -/
theorem Owes.concat {n : ℕ} (hcap : 0 < task.plan.capacity) (h : task.Owes fault moves n)
    (move : Move) :
    task.Owes fault (moves ++ [move]) n
      ∧ ∀ k, task.Within move k (task.exposedAfter fault moves) →
        (∃ m < n, task.Owes fault (moves ++ [move]) m)
          ∨ ∃ j < k, task.Within move j (task.exposedAfter fault (moves ++ [move])) := by
  obtain ⟨taken, left, haccounts, howed⟩ := h
  have hgets : ∀ {taken' left' : List Triple} {within within' : ℕ → Prop},
      task.ExposedAccounts (task.exposedAfter fault (moves ++ [move])) taken' left' →
      GetsOn (task.owed (task.exposedAfter fault (moves ++ [move])).toParties left')
        (task.owed (task.exposedAfter fault moves).toParties left) within within' →
      task.Owes fault (moves ++ [move]) n ∧ ∀ k, within k →
        (∃ m < n, task.Owes fault (moves ++ [move]) m) ∨ ∃ j < k, within' j :=
    fun haccounts' h => ⟨⟨_, _, haccounts', h.1.trans howed⟩, fun k hk =>
      (h.2 k hk).imp_left fun hlt => ⟨_, hlt.trans_le howed, _, _, haccounts', le_rfl⟩⟩
  rw [exposedAfter_concat] at hgets ⊢
  cases move with
  | cancel => exact hgets haccounts.cancel ⟨le_rfl, fun _ => False.elim⟩
  | produce =>
    obtain ⟨later, haccounts'⟩ :=
      haccounts.produce hcap (memory_exposedAfter moves) (access_exposedAfter moves)
    refine hgets haccounts' (getsOn_exposedProduce hcap ?_)
    have hscan := haccounts.scan.symm.trans haccounts'.scan
    rw [List.append_assoc, List.append_assoc] at hscan
    exact List.append_cancel_left hscan
  | consume =>
    obtain ⟨taken', haccounts'⟩ := haccounts.consume (memory_exposedAfter moves)
    exact hgets haccounts' (getsOn_exposedConsume (memory_exposedAfter moves))

/-! ## Schedules -/

/-- **Both sides are let move again and again.** -/
def Fair (schedule : ℕ → Move) : Prop :=
  ∀ who ≠ .cancel, ∀ n, ∃ k ≥ n, schedule k = who

/-- Moving by turns, one move each. -/
def alternating (n : ℕ) : Move :=
  if n % 2 = 0 then .produce else .consume

/-- That lets both sides move again and again. -/
theorem fair_alternating : Fair alternating := by
  intro who hwho n
  cases who with
  | produce => exact ⟨2 * n, by omega, if_pos (by omega)⟩
  | consume => exact ⟨2 * n + 1, by omega, if_neg (by omega)⟩
  | cancel => exact absurd rfl hwho

/-- The first moves of a schedule. -/
def movesUntil (schedule : ℕ → Move) (n : ℕ) : List Move :=
  (List.range n).map schedule

theorem movesUntil_succ (schedule : ℕ → Move) (n : ℕ) :
    movesUntil schedule (n + 1) = movesUntil schedule n ++ [schedule n] := by
  rw [movesUntil, List.range_succ, List.map_append]
  rfl

variable {schedule : ℕ → Move}

/-- A party that gets on soon still does so when its turn comes. -/
theorem Owes.wait (hcap : 0 < task.plan.capacity) {who : Move} {n k j : ℕ}
    (h : task.Owes fault (movesUntil schedule k) n)
    (hwithin : task.Within who j (task.exposedAfter fault (movesUntil schedule k))) (d : ℕ)
    (hd : ∀ i < d, schedule (k + i) ≠ who) :
    task.Owes fault (movesUntil schedule (k + d)) n
      ∧ task.Within who j (task.exposedAfter fault (movesUntil schedule (k + d))) := by
  induction d with
  | zero => exact ⟨h, hwithin⟩
  | succ d ih =>
    obtain ⟨h, hwithin⟩ := ih fun i hi => hd i (Nat.lt_succ_of_lt hi)
    rw [← Nat.add_assoc, movesUntil_succ]
    refine ⟨(h.concat hcap _).1, ?_⟩
    rw [exposedAfter_concat]
    exact hwithin.move (hd d (Nat.lt_succ_self d))

/-- What is owed runs out, so the query returns. -/
theorem exists_returned_of_owes (hcap : 0 < task.plan.capacity) (hfair : Fair schedule) (n : ℕ)
    {k : ℕ} (h : task.Owes fault (movesUntil schedule k) n) :
    ∃ m, (task.exposedAfter fault (movesUntil schedule m)).returned?.isSome := by
  -- by induction on what is owed, and as long as that stays, on how soon the party gets on
  induction n using Nat.strong_induction_on generalizing k with
  | _ n ih =>
    have hwithin : ∀ who ≠ .cancel, ∀ j k, task.Owes fault (movesUntil schedule k) n →
        task.Within who j (task.exposedAfter fault (movesUntil schedule k)) →
        ∃ m, (task.exposedAfter fault (movesUntil schedule m)).returned?.isSome := by
      intro who hwho j
      induction j using Nat.strong_induction_on with
      | _ j ihj =>
        intro k h hwithin
        have hnext : ∃ d, schedule (k + d) = who := by
          obtain ⟨l, hl, hmove⟩ := hfair who hwho k
          exact ⟨l - k, by rwa [Nat.add_sub_cancel' hl]⟩
        obtain ⟨h, hwithin⟩ := h.wait hcap hwithin (Nat.find hnext)
          fun i hi => Nat.find_min hnext hi
        have hmove := Nat.find_spec hnext
        generalize k + Nat.find hnext = k at *
        obtain ⟨hsame, hgets⟩ := h.concat hcap (schedule k)
        rw [← movesUntil_succ] at hsame hgets
        rw [← hmove] at hwithin
        rcases hgets j hwithin with ⟨m, hm, hless⟩ | ⟨i, hi, hsooner⟩
        · exact ih m hm hless
        · exact ihj i hi (k + 1) hsame (hmove ▸ hsooner)
    cases hreturned : (task.exposedAfter fault (movesUntil schedule k)).returned? with
    | some result => exact ⟨k, by rw [hreturned]; rfl⟩
    | none =>
      obtain ⟨who, hwho, hwho1⟩ := exists_within hcap hreturned
      exact hwithin who hwho 1 k h hwho1

/-- **Every query returns**, whatever faults are in wait and whoever cancels the run,
if both of its sides are let move again and again. -/
theorem exists_returned_of_fair (hcap : 0 < task.plan.capacity) (fault : List Fault)
    (hfair : Fair schedule) :
    ∃ n, (task.exposedAfter fault (movesUntil schedule n)).returned?.isSome :=
  have hstart : task.Owes fault (movesUntil schedule 0)
      (task.owed (task.exposedStart fault).toParties task.scan) :=
    ⟨[], task.scan, exposedAccounts_start, le_rfl⟩
  exists_returned_of_owes hcap hfair _ hstart

end SelectTask

end TripleScript
