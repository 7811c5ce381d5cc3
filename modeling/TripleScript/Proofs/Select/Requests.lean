import TripleScript.Proofs.Plan.Sound

/-!
# How often a query asks for a page

A fault that waits for a page counts the requests: each page that is asked for
brings it one closer, and nothing else does. So how far it still is when a query
has ended tells how many pages the query has read (`Session.awaiting`).

A turn of the scan leaves the fault as far away as pages are to be read behind
it (`Feed.pagesAhead`), and a turn of the join leaves it where it is
(`SelectPlan.joinHanded_awaiting`). A query therefore asks for no more than one
page more than full pages fit into its first scan, and if it has no limit, for
exactly so many (`SelectPlan.Sound.run_awaiting`): only a full collector ends a
query that nothing disturbs before the scan is through.
-/

namespace TripleScript

/-! ## A fault that counts pages -/

/-- The session with a fault in wait that lets so many pages pass. -/
def Session.awaiting (s : Session) (strike : Strike) (pages : ℕ) : Session :=
  s.withFault [⟨.page, pages, strike⟩]

variable {s : Session} (strike : Strike)

/-- A page that is asked for brings the fault one closer. -/
theorem Session.page_awaiting (l : Lookup) (after : Option Triple) (n pages : ℕ) :
    Session.page l after n (s.awaiting strike (pages + 1))
      = .ok (s.store.memory.page s.store.access l after n) (s.awaiting strike pages) :=
  rfl

/-- A scan of the join leaves it where it is. -/
theorem Session.scan_awaiting (l : Lookup) (pages : ℕ) :
    Session.scan l (s.awaiting strike pages)
      = .ok (s.store.memory.scan l) (s.awaiting strike pages) :=
  rfl

/-! ## The join -/

namespace SelectM

/-- **A step gives a result** and leaves the session as it is. -/
def Gives {α : Type} (s : Session) (x : SelectM α) (expected : Except ExecuteError α) : Prop :=
  x s = match expected with
    | .ok a => .ok a s
    | .error e => .error e s

/-- Steps that give their results make a row of steps that does. -/
protected theorem Gives.bind {α β : Type} {x : SelectM α} {f : α → SelectM β}
    {a : Except ExecuteError α} {b : α → Except ExecuteError β} (hx : Gives s x a)
    (hf : ∀ v, Gives s (f v) (b v)) : Gives s (x >>= f) (a >>= b) := by
  unfold Gives at hx
  show EStateM.bind x f s = _
  rw [EStateM.bind, hx]
  cases a with
  | error e => rfl
  | ok a => exact hf a

/-- **What a step gives with a fault in wait for a page** is a reading. -/
theorem reading_gives (hs : s.cancelled = false) (pages : ℕ) :
    Reading s.store.memory (Gives (s.awaiting strike pages)) where
  pure a := rfl
  bind := .bind
  checkCancelled := by
    show (if s.cancelled then throw .cancelled else Pure.pure () : SelectM Unit) _ = _
    rw [hs]
    rfl
  scan l := by
    show EStateM.adaptExcept _ _ _ = _
    rw [EStateM.adaptExcept, Session.scan_awaiting]
  collect row c := by
    unfold Gives TripleScript.collect
    cases c.push row <;> rfl

end SelectM

namespace SelectPlan

/-- **A turn of the join** leaves the fault alone. -/
theorem joinHanded_awaiting (p : SelectPlan) (first : ScanStep) (rest : List ScanStep)
    (hs : s.cancelled = false) (pages : ℕ) (ts : List Triple) (c : Collector) :
    (p.joinHanded first rest ts c (s.awaiting strike pages)).2 = s.awaiting strike pages
      ∧ (p.joinHanded first rest ts c (s.awaiting strike pages)).1.result
        = Collector.takeAll (p.joined first rest s.store.memory ts) c := by
  induction ts generalizing c with
  | nil => exact ⟨rfl, rfl⟩
  | cons t ts ih =>
    have happend := p.joined_append first rest s.store.memory [t] ts
    rw [List.singleton_append] at happend
    have hone : p.joinTriple first rest t c (s.awaiting strike pages) = _ :=
      p.reading_joinTriple first rest (SelectM.reading_gives strike hs pages) t c
    have hc : (s.awaiting strike pages).cancelled = false := hs
    rw [joinHanded, happend, Collector.takeAll_append, hc, if_neg Bool.false_ne_true, hone]
    cases Collector.takeAll (p.joined first rest s.store.memory [t]) c with
    | error e => exact ⟨rfl, rfl⟩
    | ok result =>
      obtain ⟨more, c'⟩ := result
      cases more with
      | false => exact ⟨rfl, rfl⟩
      | true => exact ih c'

variable {strike} in
/-- What has been joined in a turn is what the collector takes. -/
theorem takeAll_of_joinHanded (p : SelectPlan) (first : ScanStep) (rest : List ScanStep)
    (hs : s.cancelled = false) {pages : ℕ} {ts : List Triple} {c : Collector} {u u' : Session}
    {joined : Joined} (hu : s.awaiting strike pages = u)
    (h : p.joinHanded first rest ts c u = (joined, u')) :
    u = u' ∧ Collector.takeAll (p.joined first rest s.store.memory ts) c = joined.result := by
  have hjoin := joinHanded_awaiting strike p first rest hs pages ts c
  rw [hu, h] at hjoin
  exact hjoin.imp Eq.symm Eq.symm

end SelectPlan

/-! ## The first scan -/

/-- **How a scan goes on when some triples are left of it** and nothing goes
wrong. -/
def Feed.Holds (m : MemoryStore) (l : Lookup) (left : List Triple) : Feed → Prop
  | waiting page full => page ≠ [] ∧ PageOf m l left page full
  | ended => left = []
  | failed _ => False

/-- How many pages are read behind the one that waits: full ones and one more. -/
def Feed.pagesAhead (capacity : ℕ) (left : List Triple) : Feed → ℕ
  | waiting page true => (left.length - page.length) / capacity + 1
  | _ => 0

/-- Behind a page that has just been read lie as many pages as full ones fit
into what was left. -/
theorem Feed.pagesAhead_take {capacity : ℕ} (hcap : 0 < capacity) (left : List Triple) :
    pagesAhead capacity left (.waiting (left.take capacity)
      (capacity ≤ (left.take capacity).length)) = left.length / capacity := by
  rw [List.length_take]
  by_cases hfull : capacity ≤ left.length
  · rw [min_eq_left hfull, decide_eq_true (le_refl _)]
    show (left.length - (left.take capacity).length) / capacity + 1 = left.length / capacity
    rw [List.length_take, min_eq_left hfull, ← Nat.div_eq_sub_div hcap hfull]
  · rw [min_eq_right (le_of_not_ge hfull), decide_eq_false hfull]
    exact (Nat.div_eq_of_lt (lt_of_not_ge hfull)).symm

/-- **What a turn of the scan leaves behind** when a fault waits behind all pages:
what it has not handed on, and a fault that has come closer by the pages read. -/
def Turn.LeavesAwaiting (s : Session) (strike : Strike) (l : Lookup) (capacity pages : ℕ)
    (left : List Triple) (result : Turn × Session) : Prop :=
  ∃ behind, left = result.1.handed ++ behind ∧ result.1.feed.Holds s.store.memory l behind
    ∧ result.2 = s.awaiting strike (pages + result.1.feed.pagesAhead capacity behind)

variable {strike} in
/-- A turn that hands on a triple more leaves the same behind. -/
theorem Turn.LeavesAwaiting.after {l : Lookup} {capacity pages : ℕ} {left : List Triple}
    {turn : Turn} {u : Session}
    (h : LeavesAwaiting s strike l capacity pages left (turn, u)) (t : Triple) :
    LeavesAwaiting s strike l capacity pages (t :: left) (turn.after t, u) := by
  obtain ⟨behind, rfl, hfeed, hu⟩ := h
  exact ⟨behind, rfl, hfeed, hu⟩

/-- **A turn of the scan** brings the fault closer by the pages that it reads. -/
theorem leavesAwaiting_handOver (hs : s.cancelled = false) {l : Lookup} {capacity : ℕ}
    (hcap : 0 < capacity) (quota : ℕ) {left page : List Triple} {full : Bool}
    (hpage : PageOf s.store.memory l left page full) (hne : full = true → page ≠ []) (pages : ℕ) :
    Turn.LeavesAwaiting s strike l capacity pages left (handOver l capacity quota page full
      (s.awaiting strike (pages + Feed.pagesAhead capacity left (.waiting page full)))) := by
  generalize hu : s.awaiting strike
    (pages + Feed.pagesAhead capacity left (.waiting page full)) = u
  fun_induction handOver l capacity quota page full u generalizing left with
  | case1 quota full u =>
    obtain rfl := hpage.last rfl
    cases full with
    | true => exact absurd rfl (hne rfl)
    | false => exact ⟨[], rfl, rfl, hu.symm⟩
  | case2 page full u hnil => exact ⟨left, rfl, ⟨hnil, hpage⟩, hu.symm⟩
  | case3 quota t page full u hc =>
    rw [← hu] at hc
    exact Bool.noConfusion (hs.symm.trans hc)
  | case4 quota t page u _ hlast e u' hnext =>
    rw [← hu] at hnext
    cases hnext
  | case5 quota t page u _ hlast next u' hnext turn u'' hturn ih =>
    -- the last triple of a full page is the cursor for the next
    obtain ⟨later, rfl⟩ := hpage.front
    obtain rfl := List.isEmpty_iff.mp hlast
    obtain ⟨front, hfront⟩ := hpage.suffix
    have hread : next = later.take capacity
        ∧ u' = s.awaiting strike (pages + later.length / capacity) := by
      rw [← hu, Feed.pagesAhead, ← Nat.add_assoc, Session.page_awaiting,
        MemoryStore.page_of_scan_eq_append _ _ hfront.symm, List.length_append,
        Nat.add_sub_cancel_left] at hnext
      cases hnext
      exact ⟨rfl, rfl⟩
    obtain ⟨rfl, rfl⟩ := hread
    have hbehind : PageOf s.store.memory l later (later.take capacity)
        (capacity ≤ (later.take capacity).length) :=
      .take hcap ((List.suffix_cons t later).trans hpage.suffix)
    have hrest := ih hbehind
      (fun hfull => List.ne_nil_of_length_pos (hcap.trans_le (of_decide_eq_true hfull)))
      (by rw [Feed.pagesAhead_take hcap])
    rw [hturn] at hrest
    exact hrest.after t
  | case6 quota t page full u _ hlast hfull =>
    rw [List.isEmpty_iff.mp hlast] at hpage
    obtain rfl := hpage.whole (Bool.eq_false_iff.mpr hfull)
    rw [Bool.eq_false_iff.mpr hfull] at hu
    exact ⟨[], rfl, rfl, hu.symm⟩
  | case7 quota t page full u _ hmore turn u' hturn ih =>
    obtain ⟨later, rfl⟩ := hpage.front
    have hnil := mt List.isEmpty_iff.mpr hmore
    have hrest := ih (hpage.tail hnil) (fun _ => hnil) (by
      rw [← hu]
      cases full with
      | false => rfl
      | true => simp [Feed.pagesAhead])
    rw [hturn] at hrest
    exact hrest.after t

/-- **The first turn** reads one page more. -/
theorem leavesAwaiting_firstTurn (hs : s.cancelled = false) (l : Lookup) {capacity : ℕ}
    (hcap : 0 < capacity) (pages : ℕ) :
    Turn.LeavesAwaiting s strike l capacity pages (s.store.memory.scan l) (firstTurn l capacity
      (s.awaiting strike (pages + ((s.store.memory.scan l).length / capacity + 1)))) := by
  rw [firstTurn, ← Nat.add_assoc, Session.page_awaiting, MemoryStore.page_none,
    ← Feed.pagesAhead_take hcap]
  exact leavesAwaiting_handOver strike hs hcap _ (.take hcap (List.suffix_refl _))
    (fun hfull => List.ne_nil_of_length_pos (hcap.trans_le (of_decide_eq_true hfull))) pages

/-! ## The answer -/

namespace SelectPlan

variable (p : SelectPlan)

/-- A result settles as it is when nothing goes wrong. -/
theorem settle_of_holds {u : Session} (hu : u.cancelled = false) {m : MemoryStore} {l : Lookup}
    {left : List Triple} {feed : Feed} (hfeed : feed.Holds m l left) (watched paused : Bool)
    (result : Except ExecuteError Table) :
    settle watched paused feed u result = .finished result := by
  unfold settle
  rw [hu, Bool.and_false, if_neg Bool.false_ne_true]
  cases feed with
  | failed e => exact hfeed.elim
  | _ => cases result <;> rfl

/-- **The turns of a query** bring the fault closer by the pages that they read:
all that are left of the scan if the collector has no limit. -/
theorem takeTurns_awaiting (watched : Bool) (first : ScanStep) (rest : List ScanStep)
    (hs : s.cancelled = false) (hcap : 0 < p.capacity) (turns : ℕ) (turn : Turn)
    (behind : List Triple) (c : Collector)
    (hfeed : turn.feed.Holds s.store.memory (first.pattern.lookup (Row.empty p.slotCount)) behind)
    (hturns : behind.length ≤ turns) (pages : ℕ) :
    ∃ more, p.takeTurns watched first rest turns turn c
          (s.awaiting strike (pages + turn.feed.pagesAhead p.capacity behind))
        = (.finished (p.outcome (p.joined first rest s.store.memory (turn.handed ++ behind)) c),
            s.awaiting strike (pages + more))
      ∧ (c.limit = none →
          (∃ table, p.outcome (p.joined first rest s.store.memory (turn.handed ++ behind)) c
            = .ok table) → more = 0) := by
  generalize hu : s.awaiting strike (pages + turn.feed.pagesAhead p.capacity behind) = u
  have hcalm : ∀ pages, (s.awaiting strike pages).cancelled = false := fun _ => hs
  fun_induction takeTurns p watched first rest turns turn c u generalizing behind with
  | case1 turns turn c u hwatched =>
    rw [← hu, hcalm, Bool.and_false] at hwatched
    cases hwatched
  | case2 turns turn c u _ joined u' hjoin spent settle e hresult =>
    obtain ⟨rfl, htake⟩ := p.takeAll_of_joinHanded first rest hs hu hjoin
    have hsettle : settle (.error e) = _ := settle_of_holds (hu ▸ hcalm _) hfeed _ _ _
    rw [outcome_joined_append, htake, hresult, hsettle]
    refine ⟨_, Prod.ext rfl hu.symm, ?_⟩
    rintro - ⟨table, h⟩
    cases h
  | case3 turns turn c u _ joined u' hjoin spent settle c' hresult =>
    obtain ⟨rfl, htake⟩ := p.takeAll_of_joinHanded first rest hs hu hjoin
    have hsettle : settle (.ok (p.answer c')) = _ := settle_of_holds (hu ▸ hcalm _) hfeed _ _ _
    rw [outcome_joined_append, htake, hresult, hsettle]
    refine ⟨_, Prod.ext rfl hu.symm, fun hc => ?_⟩
    cases (Collector.takeAll_of_unlimited hc (htake.trans hresult)).1
  | case4 turns turn c u _ joined u' hjoin spent settle c' hresult hc =>
    obtain ⟨rfl, -⟩ := p.takeAll_of_joinHanded first rest hs hu hjoin
    rw [← hu, hcalm] at hc
    cases hc
  | case5 turn c u _ joined u' hjoin c' hresult hc turns page full hwait next u'' hnext ih =>
    obtain ⟨rfl, htake⟩ := p.takeAll_of_joinHanded first rest hs hu hjoin
    rw [hwait] at hfeed hu
    obtain ⟨hne, hpage⟩ := hfeed
    have hleaves := leavesAwaiting_handOver strike hs hcap (turnQuota p.capacity)
      hpage (fun _ => hne) pages
    have hprogress := handed_ne_nil_of_handOver (first.pattern.lookup (Row.empty p.slotCount))
      p.capacity full (s.awaiting strike (pages
        + Feed.pagesAhead p.capacity behind (.waiting page full))) (turnQuota_pos hcap) hne
    rw [hu, hnext] at hleaves hprogress
    obtain ⟨later, rfl, hlater, hu''⟩ := hleaves
    -- each turn hands on something, so what is left stays within the turns left
    have hlength : later.length ≤ turns := by
      have hpos := List.length_pos_iff.mpr (hprogress (hu''.symm ▸ hcalm _))
      rw [List.length_append] at hturns
      dsimp only at hpos hturns
      omega
    obtain ⟨more, hrun, hmore⟩ := ih later hlater hlength hu''.symm
    rw [outcome_joined_append, htake, hresult]
    refine ⟨more, hrun, fun hc => hmore ?_⟩
    exact (Collector.takeAll_of_unlimited hc (htake.trans hresult)).2
  | case6 turns turn c u _ joined u' hjoin spent settle c' hresult hc hstop =>
    obtain ⟨rfl, htake⟩ := p.takeAll_of_joinHanded first rest hs hu hjoin
    -- if a page were waiting, a triple would be left for another turn
    have hended : turn.feed = .ended := by
      cases hwait : turn.feed with
      | ended => rfl
      | failed e =>
        rw [hwait] at hfeed
        exact hfeed.elim
      | waiting page full =>
        rw [hwait] at hfeed
        cases turns with
        | succ turns => exact (hstop turns page full rfl hwait).elim
        | zero =>
          rw [List.length_eq_zero_iff.mp (Nat.le_zero.mp hturns)] at hfeed
          exact absurd (List.prefix_nil.mp hfeed.2.front) hfeed.1
    have hbehind : behind = [] := by
      rw [hended] at hfeed
      exact hfeed
    have hsettle : settle (.ok (p.answer c')) = _ := settle_of_holds (hu ▸ hcalm _) hfeed _ _ _
    rw [outcome_joined_append, htake, hresult, hsettle, hbehind]
    rw [hended] at hu
    exact ⟨0, Prod.ext rfl hu.symm, fun _ _ => rfl⟩

/-- **A query asks for at most one page more than full pages fit into its first
scan**, and for exactly so many if it has no limit and gives a table. -/
theorem run_awaiting (watched : Bool) {first : ScanStep} {rest : List ScanStep}
    (hsteps : p.steps = first :: rest) (hs : s.cancelled = false) (hcap : 0 < p.capacity)
    (pages : ℕ) :
    ∃ more, p.run watched (s.awaiting strike (pages + ((s.store.memory.scan
          (first.pattern.lookup (Row.empty p.slotCount))).length / p.capacity + 1)))
        = (.finished (p.outcome (completions s.store.memory p.steps (Row.empty p.slotCount))
            (.ofPlan p)), s.awaiting strike (pages + more))
      ∧ (p.limit = none →
          (∃ table, p.outcome (completions s.store.memory p.steps (Row.empty p.slotCount))
            (.ofPlan p) = .ok table) → more = 0) := by
  have hfirst := leavesAwaiting_firstTurn strike hs
    (first.pattern.lookup (Row.empty p.slotCount)) hcap pages
  have hrows : p.joined first rest s.store.memory (s.store.memory.scan
      (first.pattern.lookup (Row.empty p.slotCount)))
      = completions s.store.memory p.steps (Row.empty p.slotCount) := by
    rw [hsteps]
    rfl
  rw [← hrows]
  unfold run
  rw [hsteps]
  dsimp only
  revert hfirst
  generalize firstTurn (first.pattern.lookup (Row.empty p.slotCount)) p.capacity _ = result
  rintro ⟨behind, hscan, hfeed, hu⟩
  have hlength : behind.length ≤ s.store.memory.size := by
    have h := s.store.memory.length_scan_le (first.pattern.lookup (Row.empty p.slotCount))
    rw [hscan, List.length_append] at h
    omega
  have hturns := takeTurns_awaiting strike p watched first rest hs hcap _ _ behind
    (.ofPlan p) hfeed hlength pages
  rw [← hscan, ← hu] at hturns
  have hmemory : result.2.store.memory = s.store.memory := by rw [hu]; rfl
  rw [hmemory]
  exact hturns

variable {p} in
/-- **A sound query without a limit gives its complete answer and asks for one
page more than full pages fit into its first scan.** -/
theorem Sound.run_awaiting (hp : p.Sound) (hlimit : p.limit = none) (watched : Bool)
    {first : ScanStep} {rest : List ScanStep} (hsteps : p.steps = first :: rest)
    (hs : s.cancelled = false) (pages : ℕ) :
    p.run watched (s.awaiting strike (pages + ((s.store.memory.scan
          (first.pattern.lookup (Row.empty p.slotCount))).length / p.capacity + 1)))
      = (.finished (.ok (p.fullAnswer s.store.memory)), s.awaiting strike pages) := by
  obtain ⟨more, hrun, hmore⟩ := SelectPlan.run_awaiting strike p watched hsteps hs
    hp.capacity_pos pages
  have hnone : more = 0 := hmore hlimit ⟨_, hp.outcome_eq s.store.memory⟩
  rw [hrun, hp.outcome_eq, hnone, Nat.add_zero]

end SelectPlan

end TripleScript
