import TripleScript.Proofs.Select.Collecting
import TripleScript.Proofs.Select.NestedLoop
import TripleScript.Proofs.Session.Trouble

/-!
# The turns of a query

Trouble can come to either side of a query: while the first scan reads a page,
when nothing tells the join but that no more triples come, and while the join
scans at some depth, with rows in the collector already. What comes out is
still what the collector makes of the rows of the nested loop, or else an
error that is due to the trouble (`SelectPlan.run_of_trouble`). If there is no
trouble, then the pages of the first scan, the turns in which they are handed
on and joined, and the early end of a full collector all vanish, whatever the
capacity is (`SelectPlan.run_of_calm`).

The proof follows the two sides. What is known of the small steps of the join is
known of the join as a whole (`SelectM.Reading`); `SelectM.Yields` says of a step
that it gives what the loop gives or fails for a reason. A turn of the first
scan hands on a piece of it and is left with what comes behind it, of which a
page is waiting; if it says that nothing is left, then nothing is left or the
run is cancelled (`Turn.HandsOn`). And it makes progress
(`handed_ne_nil_of_handOver`), so that the turns suffice. The turns put the
two sides together: a result of the join counts only if the scan has not
failed and the run is not cancelled (`SelectPlan.takeTurns_of_trouble`).
-/

namespace TripleScript

/-! ## The join -/

namespace SelectM

/-- **A reading of the steps of a join** says of a step what comes of it on a
store that holds this. It is told by the small steps, and a row of steps is read
step by step. -/
structure Reading (m : MemoryStore)
    (R : {α : Type} → SelectM α → Except ExecuteError α → Prop) : Prop where
  /-- Giving a value gives it. -/
  pure : ∀ {α : Type} (a : α), R (pure a) (.ok a)
  /-- Steps that are read one by one make a row of steps. -/
  bind : ∀ {α β : Type} {x : SelectM α} {f : α → SelectM β} {a : Except ExecuteError α}
    {b : α → Except ExecuteError β}, R x a → (∀ v, R (f v) (b v)) → R (x >>= f) (a >>= b)
  /-- Looking whether the run is cancelled finds nothing. -/
  checkCancelled : R checkCancelled (.ok ())
  /-- A scan finds the triples that its lookup accepts. -/
  scan : ∀ l, R (EStateM.adaptExcept .store (Session.scan l)) (.ok (m.scan l))
  /-- The collector takes a row. -/
  collect : ∀ row c, R (collect row c) (c.push row)

namespace Reading

variable {m : MemoryStore} {R : {α : Type} → SelectM α → Except ExecuteError α → Prop}

/-- **Going through the triples of a scan** is read as what comes out of the loop,
if the scans behind it are. -/
protected theorem joinEach (hR : Reading m R) {p : SlotPattern} {row : Row}
    {next : Row → Collector → SelectM (Bool × Collector)} {rows : Row → List Row}
    (hnext : ∀ r c, R (next r c) (Collector.takeAll (rows r) c))
    (ts : List Triple) (c : Collector) :
    R (joinEach p row next ts c) (Collector.takeAll (through p row rows ts) c) := by
  induction ts generalizing c with
  | nil => exact hR.pure _
  | cons t ts ih =>
    have hthrough : through p row rows (t :: ts)
        = (p.bind t row).elim [] rows ++ through p row rows ts := List.flatMap_cons
    unfold TripleScript.joinEach
    rw [hthrough]
    cases p.bind t row with
    | none => exact ih c
    | some extended =>
      have happend : Collector.takeAll (rows extended ++ through p row rows ts) c
          = Collector.takeAll (rows extended) c >>= fun result =>
              if result.1 then Collector.takeAll (through p row rows ts) result.2
              else .ok (false, result.2) := by
        rw [Collector.takeAll_append]
        rcases Collector.takeAll (rows extended) c with e | ⟨more, c'⟩
        · rfl
        · cases more <;> rfl
      rw [Option.elim_some, happend]
      refine hR.bind (hnext extended c) fun result => ?_
      obtain ⟨more, c'⟩ := result
      cases more with
      | false => exact hR.pure _
      | true => exact ih c'

/-- **Extending a row is read as collecting its completions.** -/
protected theorem extend (hR : Reading m R) (steps : List ScanStep) (row : Row) (c : Collector) :
    R (extend steps row c) (Collector.takeAll (completions m steps row) c) := by
  induction steps generalizing row c with
  | nil =>
    have hone : Collector.takeAll (completions m [] row) c = c.push row := by
      show Collector.takeAll [row] c = c.push row
      rw [Collector.takeAll_cons]
      rcases c.push row with e | ⟨more, c'⟩
      · rfl
      · cases more <;> rfl
    rw [hone]
    exact hR.collect row c
  | cons step steps ih =>
    exact hR.bind hR.checkCancelled fun _ =>
      hR.bind (hR.scan (step.pattern.lookup row)) fun _ => hR.joinEach ih _ c

end Reading

end SelectM

/-- **A step of the join gives what it would give undisturbed**, on a store
that holds this, or it fails for a reason. -/
def SelectM.Yields {α : Type} (m : MemoryStore) (x : SelectM α)
    (expected : Except ExecuteError α) : Prop :=
  ∀ s : Session, s.store.memory = m →
    match x s with
    | .ok a s' => expected = .ok a ∧ s.Undergoes s'
    | .error e s' => (expected = .error e ∨ e.DueTo s) ∧ s.Undergoes s'

namespace SelectM.Yields

variable {α β : Type} {m : MemoryStore} {s s' : Session}

theorem of_ok {x : SelectM α} {expected : Except ExecuteError α} (hx : Yields m x expected)
    (hm : s.store.memory = m) {a : α} (h : x s = .ok a s') :
    expected = .ok a ∧ s.Undergoes s' := by
  have hs := hx s hm
  rwa [h] at hs

theorem of_error {x : SelectM α} {expected : Except ExecuteError α}
    (hx : Yields m x expected) (hm : s.store.memory = m) {e : ExecuteError}
    (h : x s = .error e s') : (expected = .error e ∨ e.DueTo s) ∧ s.Undergoes s' := by
  have hs := hx s hm
  rwa [h] at hs

protected theorem pure (a : α) : Yields m (pure a) (.ok a) :=
  fun s _ => ⟨rfl, .refl s⟩

/-- **Steps that yield their results make a row of steps that does.** -/
protected theorem bind {x : SelectM α} {f : α → SelectM β} {a : Except ExecuteError α}
    {b : α → Except ExecuteError β} (hx : Yields m x a) (hf : ∀ a, Yields m (f a) (b a)) :
    Yields m (x >>= f) (a >>= b) := by
  intro s hm
  show match EStateM.bind x f s with | .ok .. => _ | .error .. => _
  unfold EStateM.bind
  cases hxs : x s with
  | error e s₁ =>
    obtain ⟨he, hs⟩ := hx.of_error hm hxs
    refine ⟨he.imp_left fun he => ?_, hs⟩
    rw [he]
    rfl
  | ok a₁ s₁ =>
    obtain ⟨rfl, hs⟩ := hx.of_ok hm hxs
    have hm₁ := hs.memory.trans hm
    dsimp only
    cases hfs : f a₁ s₁ with
    | ok b₁ s₂ =>
      obtain ⟨hb, hs'⟩ := (hf a₁).of_ok hm₁ hfs
      exact ⟨hb, hs.trans hs'⟩
    | error e s₂ =>
      obtain ⟨he, hs'⟩ := (hf a₁).of_error hm₁ hfs
      exact ⟨he.imp_right hs.dueTo, hs.trans hs'⟩

/-- Looking whether the run is cancelled finds nothing or the cancellation. -/
protected theorem checkCancelled : Yields m checkCancelled (.ok ()) := by
  intro s _
  cases hc : s.cancelled with
  | true =>
    have h : TripleScript.checkCancelled s = .error .cancelled s := by
      show (if s.cancelled then throw .cancelled else pure () : SelectM Unit) s = _
      rw [if_pos hc]
      rfl
    rw [h]
    exact ⟨.inr (.cancelled hc), .refl s⟩
  | false =>
    have h : TripleScript.checkCancelled s = .ok () s := by
      show (if s.cancelled then throw .cancelled else pure () : SelectM Unit) s = _
      rw [if_neg (Bool.eq_false_iff.mp hc)]
      rfl
    rw [h]
    exact ⟨rfl, .refl s⟩

/-- A scan finds the triples that its lookup accepts. -/
protected theorem scan (l : Lookup) :
    Yields m (EStateM.adaptExcept .store (Session.scan l)) (.ok (m.scan l)) := by
  intro s hm
  simp only [EStateM.adaptExcept]
  cases h : Session.scan l s with
  | error e s' => exact ⟨.inr (Session.dueTo_of_scan h).2, (Session.dueTo_of_scan h).1⟩
  | ok ts s' =>
    obtain ⟨rfl, hs⟩ := Session.undergoes_of_scan h
    exact ⟨by rw [hm], hs⟩

protected theorem collect (row : Row) (c : Collector) :
    Yields m (collect row c) (c.push row) := by
  intro s _
  unfold TripleScript.collect
  cases c.push row with
  | error e => exact ⟨.inl rfl, .refl s⟩
  | ok r => exact ⟨rfl, .refl s⟩

/-- **What a step yields is a reading.** -/
protected theorem reading : Reading m (Yields m) where
  pure := .pure
  bind := .bind
  checkCancelled := .checkCancelled
  scan := .scan
  collect := .collect

end SelectM.Yields

namespace SelectPlan

variable (p : SelectPlan) (first : ScanStep) (rest : List ScanStep)

/-- The rows that some triples of the first scan lead to. -/
def joined (m : MemoryStore) (ts : List Triple) : List Row :=
  through first.pattern (Row.empty p.slotCount) (completions m rest) ts

theorem joined_append (m : MemoryStore) (ts us : List Triple) :
    p.joined first rest m (ts ++ us)
      = p.joined first rest m ts ++ p.joined first rest m us :=
  through_append _ _ _ ts us

/-- Joining one triple of the first scan is read as collecting the rows it leads
to. -/
theorem reading_joinTriple {m : MemoryStore}
    {R : {α : Type} → SelectM α → Except ExecuteError α → Prop} (hR : SelectM.Reading m R)
    (t : Triple) (c : Collector) :
    R (p.joinTriple first rest t c) (Collector.takeAll (p.joined first rest m [t]) c) := by
  have hjoined : p.joined first rest m [t]
      = (first.pattern.bind t (Row.empty p.slotCount)).elim [] (completions m rest) :=
    List.flatMap_singleton _ _
  rw [joinTriple, hjoined]
  cases first.pattern.bind t (Row.empty p.slotCount) with
  | none => exact hR.pure _
  | some row => exact hR.extend rest row c

/-- Joining one triple of the first scan yields the rows it leads to. -/
theorem yields_joinTriple (m : MemoryStore) (t : Triple) (c : Collector) :
    SelectM.Yields m (p.joinTriple first rest t c)
      (Collector.takeAll (p.joined first rest m [t]) c) :=
  p.reading_joinTriple first rest SelectM.Yields.reading t c

/-- **A turn of the join collects the rows that its triples lead to**, or it
fails for a reason. -/
theorem joinHanded_of_trouble {m : MemoryStore} {s : Session} (hm : s.store.memory = m)
    (ts : List Triple) (c : Collector) :
    s.Undergoes (p.joinHanded first rest ts c s).2
      ∧ match (p.joinHanded first rest ts c s).1.result with
        | .ok result => Collector.takeAll (p.joined first rest m ts) c = .ok result
        | .error e => Collector.takeAll (p.joined first rest m ts) c = .error e ∨ e.DueTo s := by
  induction ts generalizing c s with
  | nil => exact ⟨.refl s, rfl⟩
  | cons t ts ih =>
    have happend := p.joined_append first rest m [t] ts
    rw [List.singleton_append] at happend
    rw [joinHanded, happend, Collector.takeAll_append]
    cases hc : s.cancelled with
    | true =>
      rw [if_pos rfl]
      exact ⟨.refl s, .inr (.cancelled hc)⟩
    | false =>
      rw [if_neg Bool.false_ne_true]
      cases h : p.joinTriple first rest t c s with
      | error e s' =>
        obtain ⟨he, hs⟩ := (p.yields_joinTriple first rest m t c).of_error hm h
        refine ⟨hs, he.imp_left fun he => ?_⟩
        rw [he]
      | ok result s' =>
        obtain ⟨hr, hs⟩ := (p.yields_joinTriple first rest m t c).of_ok hm h
        rw [hr]
        obtain ⟨more, c'⟩ := result
        cases more with
        | false => exact ⟨hs, rfl⟩
        | true =>
          obtain ⟨hs', hresult⟩ := ih (hs.memory.trans hm) c'
          refine ⟨hs.trans hs', ?_⟩
          dsimp only
          revert hresult
          cases (p.joinHanded first rest ts c' s').1.result with
          | ok result => exact id
          | error e => exact fun h => h.imp_right hs.dueTo

end SelectPlan

/-! ## The first scan -/

/-- **A page stands at the front of what is left of a scan**: of a page that is
not full nothing is missing, and a page is empty only if nothing is left. -/
structure PageOf (m : MemoryStore) (l : Lookup) (left page : List Triple)
    (full : Bool) : Prop where
  /-- What is left is the end of the scan. -/
  suffix : left <:+ m.scan l
  /-- The page is the next piece of it. -/
  front : page <+: left
  /-- Behind a page that is not full there is nothing. -/
  whole : full = false → page = left
  /-- An empty page means that there is nothing left. -/
  last : page = [] → left = []

/-- The next so many triples of what is left are a page. -/
theorem PageOf.take {m : MemoryStore} {l : Lookup} {left : List Triple} {capacity : ℕ}
    (hcap : 0 < capacity) (hsuffix : left <:+ m.scan l) :
    PageOf m l left (left.take capacity) (capacity ≤ (left.take capacity).length) where
  suffix := hsuffix
  front := List.take_prefix capacity left
  whole h := by
    rw [decide_eq_false_iff_not, List.length_take] at h
    exact List.take_of_length_le (by omega)
  last h := (List.take_eq_nil_iff.mp h).resolve_left hcap.ne'

/-- Behind the first triple of a page that has another there is the rest of the
page. -/
theorem PageOf.tail {m : MemoryStore} {l : Lookup} {t : Triple} {page later : List Triple}
    {full : Bool} (h : PageOf m l (t :: page ++ later) (t :: page) full) (hne : page ≠ []) :
    PageOf m l (page ++ later) page full where
  suffix := (List.suffix_cons t _).trans h.suffix
  front := List.prefix_append _ _
  whole hfull := List.tail_eq_of_cons_eq (h.whole hfull)
  last hnil := absurd hnil hne

/-- **How a scan goes on when some triples are left of it**, seen from a
session before: if it has ended early the run is cancelled, and if it has
failed a fault was in wait. -/
def Feed.Awaits (s₀ s : Session) (l : Lookup) (left : List Triple) : Feed → Prop
  | waiting page full => page ≠ [] ∧ PageOf s.store.memory l left page full
  | ended => left = [] ∨ s.cancelled = true
  | failed e => (ExecuteError.store e).DueTo s₀

/-- What a feed awaits can be seen from an earlier session. -/
theorem Feed.Awaits.since {s s₁ s₂ : Session} {l : Lookup} {left : List Triple} {feed : Feed}
    (hs : s.Undergoes s₁) (h : feed.Awaits s₁ s₂ l left) : feed.Awaits s s₂ l left := by
  cases feed with
  | failed e => exact hs.dueTo h
  | _ => exact h

/-- Handing on only reads. -/
theorem undergoes_handOver (l : Lookup) (capacity quota : ℕ) (page : List Triple)
    (full : Bool) (s : Session) : s.Undergoes (handOver l capacity quota page full s).2 := by
  fun_induction handOver l capacity quota page full s with
  | case1 => exact .refl _
  | case2 => exact .refl _
  | case3 => exact .refl _
  | case4 quota t page s _ _ e s' h => exact (Session.dueTo_of_page h).1
  | case5 quota t page s _ _ next s' h turn s'' hrest ih =>
    rw [hrest] at ih
    exact (Session.undergoes_of_page h).2.trans ih
  | case6 => exact .refl _
  | case7 quota t page full s _ _ turn s' hrest ih =>
    rwa [hrest] at ih

/-- **A turn hands on the front of what is left of a scan**, and what comes
behind it goes on as its feed says. -/
def Turn.HandsOn (s₀ s : Session) (l : Lookup) (left : List Triple) (turn : Turn) : Prop :=
  ∃ behind, left = turn.handed ++ behind ∧ turn.feed.Awaits s₀ s l behind

/-- A turn that hands on a triple more hands on what is left with it. -/
theorem Turn.HandsOn.after {s s₁ s₂ : Session} {l : Lookup} {left : List Triple} {turn : Turn}
    (h : turn.HandsOn s₁ s₂ l left) (hs : s.Undergoes s₁) (t : Triple) :
    (turn.after t).HandsOn s s₂ l (t :: left) := by
  obtain ⟨behind, rfl, hfeed⟩ := h
  exact ⟨behind, rfl, hfeed.since hs⟩

/-- **A turn of the scan hands on the next piece of it.** -/
theorem handsOn_handOver {l : Lookup} {capacity : ℕ} (hcap : 0 < capacity) (quota : ℕ)
    {s : Session} {left page : List Triple} {full : Bool}
    (hpage : PageOf s.store.memory l left page full) :
    (handOver l capacity quota page full s).1.HandsOn s
      (handOver l capacity quota page full s).2 l left := by
  -- where the run is found cancelled or a page cannot be read, the turn ends
  -- and what is left stays behind
  fun_induction handOver l capacity quota page full s generalizing left with
  | case1 =>
    obtain rfl := hpage.last rfl
    exact ⟨[], rfl, .inl rfl⟩
  | case2 page full s hne => exact ⟨left, rfl, hne, hpage⟩
  | case3 quota t page full s hc => exact ⟨left, rfl, .inr hc⟩
  | case4 quota t page s _ hlast e s' hnext =>
    obtain ⟨later, rfl⟩ := hpage.front
    rw [List.isEmpty_iff.mp hlast]
    exact ⟨later, rfl, (Session.dueTo_of_page hnext).2⟩
  | case5 quota t page s _ hlast next s' hnext turn s'' hturn ih =>
    -- the last triple of a full page is the cursor for the next
    obtain ⟨later, rfl⟩ := hpage.front
    obtain rfl := List.isEmpty_iff.mp hlast
    obtain ⟨hread, hs⟩ := Session.undergoes_of_page hnext
    have hbehind : PageOf s'.store.memory l later next (capacity ≤ next.length) := by
      obtain ⟨front, hfront⟩ := hpage.suffix
      rw [hread, MemoryStore.page_of_scan_eq_append _ _ hfront.symm, hs.memory]
      exact .take hcap ((List.suffix_cons t later).trans hpage.suffix)
    have hrest := ih hbehind
    rw [hturn] at hrest
    exact hrest.after hs t
  | case6 quota t page full s _ hlast hfull =>
    rw [List.isEmpty_iff.mp hlast] at hpage
    obtain rfl := hpage.whole (Bool.eq_false_iff.mpr hfull)
    exact ⟨[], rfl, .inl rfl⟩
  | case7 quota t page full s _ hmore turn s' hturn ih =>
    obtain ⟨later, rfl⟩ := hpage.front
    have hrest := ih (hpage.tail (mt List.isEmpty_iff.mpr hmore))
    rw [hturn] at hrest
    exact hrest.after (.refl s) t

theorem turnQuota_pos {capacity : ℕ} (h : 0 < capacity) : 0 < turnQuota capacity := by
  unfold turnQuota turnSize
  omega

/-- **A turn makes progress** unless the run is cancelled. -/
theorem handed_ne_nil_of_handOver (l : Lookup) (capacity : ℕ) {quota : ℕ} {page : List Triple}
    (full : Bool) (s : Session) (hquota : 0 < quota) (hpage : page ≠ [])
    (h : (handOver l capacity quota page full s).2.cancelled = false) :
    (handOver l capacity quota page full s).1.handed ≠ [] := by
  fun_cases handOver l capacity quota page full s with
  | case1 => exact absurd rfl hpage
  | case2 => exact absurd hquota (lt_irrefl 0)
  | case3 quota t page full s hc =>
    rw [handOver, if_pos hc] at h
    exact absurd hc (Bool.eq_false_iff.mp h)
  | case4 => exact List.cons_ne_nil _ _
  | case5 => exact List.cons_ne_nil _ _
  | case6 => exact List.cons_ne_nil _ _
  | case7 => exact List.cons_ne_nil _ _

/-- **A turn brings the scan nearer to its end**: it hands on the front of what is left,
and since it hands on something, what comes behind that stays within the turns left. -/
theorem exists_later_of_handOver {l : Lookup} {capacity turns : ℕ} (hcap : 0 < capacity)
    {s s' : Session} {left page : List Triple} {full : Bool} {turn : Turn}
    (hwaiting : page ≠ [] ∧ PageOf s.store.memory l left page full)
    (hturns : s.cancelled = false → left.length ≤ turns + 1)
    (h : handOver l capacity (turnQuota capacity) page full s = (turn, s')) :
    ∃ later, left = turn.handed ++ later ∧ turn.feed.Awaits s s' l later
      ∧ (s'.cancelled = false → later.length ≤ turns) := by
  have hundergoes := undergoes_handOver l capacity (turnQuota capacity) page full s
  have hprogress :=
    handed_ne_nil_of_handOver l capacity full s (turnQuota_pos hcap) hwaiting.1
  have hhanded := handsOn_handOver hcap (turnQuota capacity) hwaiting.2
  rw [h] at hundergoes hprogress hhanded
  obtain ⟨later, hleft, hawaits⟩ := hhanded
  have hleft : left = turn.handed ++ later := hleft
  refine ⟨later, hleft, hawaits, fun hfree => ?_⟩
  have hpos : 0 < turn.handed.length := List.length_pos_iff.mpr (hprogress hfree)
  have hlength := hturns (hundergoes.cancelled_eq_false hfree)
  rw [hleft, List.length_append] at hlength
  omega

/-- The first turn only reads. -/
theorem undergoes_firstTurn (l : Lookup) (capacity : ℕ) (s : Session) :
    s.Undergoes (firstTurn l capacity s).2 := by
  unfold firstTurn
  cases hpage : Session.page l none capacity s with
  | error e s' => exact (Session.dueTo_of_page hpage).1
  | ok page s' => exact (Session.undergoes_of_page hpage).2.trans (undergoes_handOver ..)

/-- **The first turn hands on the front of the scan.** -/
theorem handsOn_firstTurn (l : Lookup) {capacity : ℕ} (hcap : 0 < capacity) (s : Session) :
    (firstTurn l capacity s).1.HandsOn s (firstTurn l capacity s).2 l
      (s.store.memory.scan l) := by
  unfold firstTurn
  cases hpage : Session.page l none capacity s with
  | error e s' => exact ⟨s.store.memory.scan l, rfl, (Session.dueTo_of_page hpage).2⟩
  | ok page s' =>
    obtain ⟨hread, hs⟩ := Session.undergoes_of_page hpage
    have hfront : PageOf s'.store.memory l (s.store.memory.scan l) page
        (capacity ≤ page.length) := by
      rw [hread, MemoryStore.page_none, hs.memory]
      exact .take hcap (List.suffix_refl _)
    obtain ⟨behind, hscan, hfeed⟩ := handsOn_handOver hcap (turnQuota capacity) hfront
    exact ⟨behind, hscan, hfeed.since hs⟩

/-! ## The answer -/

/-- **An ending is right or due to trouble**: it has the result that is
expected, or an error for which there is a reason, or nobody waits for it
because the run has been cancelled. -/
def Ending.RightOrDueTo (s : Session) (expected : Except ExecuteError Table) : Ending → Prop
  | finished (.ok table) => expected = .ok table
  | finished (.error e) => expected = .error e ∨ e.DueTo s
  | abandoned => ExecuteError.cancelled.DueTo s

/-- **An undisturbed ending is right.** -/
theorem Ending.RightOrDueTo.of_calm {s : Session} {expected : Except ExecuteError Table}
    {ending : Ending} (h : ending.RightOrDueTo s expected) (hs : s.Calm) :
    ending = .finished expected := by
  rcases ending with ⟨e | table⟩ | _
  · exact congrArg finished (h.resolve_right (hs.not_dueTo e)).symm
  · exact congrArg finished h.symm
  · exact absurd h (hs.not_dueTo .cancelled)

namespace SelectPlan

/-- What an undisturbed plan makes of the rows of the nested loop. -/
def outcome (p : SelectPlan) (rows : List Row) (c : Collector) : Except ExecuteError Table :=
  (Collector.takeAll rows c).map fun result => p.answer result.2

/-- **What the front of the scan leaves open is up to the triples behind it.** -/
theorem outcome_joined_append (p : SelectPlan) (first : ScanStep) (rest : List ScanStep)
    (m : MemoryStore) (ts us : List Triple) (c : Collector) :
    p.outcome (p.joined first rest m (ts ++ us)) c
      = match Collector.takeAll (p.joined first rest m ts) c with
        | .error e => .error e
        | .ok (false, c) => .ok (p.answer c)
        | .ok (true, c) => p.outcome (p.joined first rest m us) c := by
  unfold outcome
  rw [joined_append, Collector.takeAll_append]
  rcases Collector.takeAll (p.joined first rest m ts) c with e | ⟨more, c'⟩
  · rfl
  · cases more <;> rfl

/-- A failure with a reason settles in a failure with a reason. -/
theorem settle_error_of_trouble {s₀ s : Session} (hs : s₀.Undergoes s)
    {expected : Except ExecuteError Table} {e : ExecuteError}
    (he : expected = .error e ∨ e.DueTo s₀) (watched paused : Bool) (feed : Feed) :
    (settle watched paused feed s (.error e)).RightOrDueTo s₀ expected := by
  unfold settle
  split
  case isTrue hc =>
    rw [Bool.and_eq_true] at hc
    exact hs.due hc.2
  case isFalse => exact he

/-- **A table settles in that table** unless the scan has failed. -/
theorem settle_ok_of_trouble {s₀ s s₁ : Session} (hs : s₀.Undergoes s) {l : Lookup}
    {left : List Triple} {feed : Feed} (hfeed : feed.Awaits s₀ s₁ l left)
    {expected : Except ExecuteError Table} {table : Table}
    (htable : (∀ e, feed ≠ .failed e) → expected = .ok table) (watched paused : Bool) :
    (settle watched paused feed s (.ok table)).RightOrDueTo s₀ expected := by
  unfold settle
  split
  case isTrue hc =>
    rw [Bool.and_eq_true] at hc
    exact hs.due hc.2
  case isFalse =>
    cases feed with
    | failed e => exact .inr hfeed
    | _ => exact htable (fun _ h => by cases h)

/-- **What a turn of the join leaves open is up to the triples behind it**: if
more rows are wanted, the outcome is that of the rest with the rows so far. -/
theorem outcome_of_joinHanded (p : SelectPlan) (first : ScanStep) (rest : List ScanStep)
    {s₀ s s' : Session} (hs : s₀.Undergoes s) {ts : List Triple} (behind : List Triple)
    {c : Collector} {joined : Joined} (h : p.joinHanded first rest ts c s = (joined, s')) :
    s₀.Undergoes s' ∧
      match joined.result with
      | .error e => p.outcome (p.joined first rest s.store.memory (ts ++ behind)) c = .error e
          ∨ e.DueTo s₀
      | .ok (false, c') =>
        p.outcome (p.joined first rest s.store.memory (ts ++ behind)) c = .ok (p.answer c')
      | .ok (true, c') =>
        p.outcome (p.joined first rest s.store.memory (ts ++ behind)) c
          = p.outcome (p.joined first rest s'.store.memory behind) c' := by
  obtain ⟨hundergoes, hresult⟩ := p.joinHanded_of_trouble first rest (s := s) rfl ts c
  rw [h] at hundergoes hresult
  refine ⟨hs.trans hundergoes, ?_⟩
  rw [hundergoes.memory, outcome_joined_append]
  cases hjoined : joined.result with
  | error e =>
    rw [hjoined] at hresult
    refine hresult.imp (fun htake => ?_) hs.dueTo
    rw [htake]
  | ok result =>
    obtain ⟨more, c'⟩ := result
    rw [hjoined] at hresult
    dsimp only at hresult
    rw [hresult]
    cases more <;> rfl

/-- **The turns collect what is left of the scan**, or they end for a reason,
as long as there are as many turns as triples. -/
theorem takeTurns_of_trouble (p : SelectPlan) (watched : Bool) (first : ScanStep)
    (rest : List ScanStep) (hcap : 0 < p.capacity) {s₀ s : Session} (hs : s₀.Undergoes s)
    (turns : ℕ) (turn : Turn) (behind : List Triple) (c : Collector)
    (hfeed : turn.feed.Awaits s₀ s (first.pattern.lookup (Row.empty p.slotCount)) behind)
    (hturns : s.cancelled = false → behind.length ≤ turns) :
    s₀.Undergoes (p.takeTurns watched first rest turns turn c s).2
      ∧ (p.takeTurns watched first rest turns turn c s).1.RightOrDueTo s₀
        (p.outcome (p.joined first rest s.store.memory (turn.handed ++ behind)) c) := by
  fun_induction takeTurns p watched first rest turns turn c s generalizing behind with
  | case1 turns turn c s hwatched =>
    rw [Bool.and_eq_true] at hwatched
    exact ⟨hs, hs.due hwatched.2⟩
  | case2 turns turn c s _ joined s' hjoin spent settle e hresult =>
    obtain ⟨hs', houtcome⟩ := p.outcome_of_joinHanded first rest hs behind hjoin
    rw [hresult] at houtcome
    exact ⟨hs', settle_error_of_trouble hs' houtcome watched _ turn.feed⟩
  | case3 turns turn c s _ joined s' hjoin spent settle c' hresult =>
    obtain ⟨hs', houtcome⟩ := p.outcome_of_joinHanded first rest hs behind hjoin
    rw [hresult] at houtcome
    exact ⟨hs', settle_ok_of_trouble hs' hfeed (fun _ => houtcome) watched _⟩
  | case4 turns turn c s _ joined s' hjoin spent settle c' hresult hc =>
    obtain ⟨hs', -⟩ := p.outcome_of_joinHanded first rest hs behind hjoin
    exact ⟨hs', settle_error_of_trouble hs' (.inr (hs'.due hc)) watched _ turn.feed⟩
  | case5 turn c s _ joined s' hjoin c' hresult hc turns page full hwait next s'' hnext ih =>
    obtain ⟨hs', houtcome⟩ := p.outcome_of_joinHanded first rest hs behind hjoin
    have hsame := sameStore_of_joinHanded hjoin
    rw [hresult] at houtcome
    rw [hwait] at hfeed
    rw [Feed.Awaits, ← hsame.memory] at hfeed
    have hundergoes := undergoes_handOver (first.pattern.lookup (Row.empty p.slotCount))
      p.capacity (turnQuota p.capacity) page full s'
    rw [hnext] at hundergoes
    obtain ⟨later, rfl, hawaits, hlater⟩ := exists_later_of_handOver hcap hfeed
      (fun hfree => hturns (hsame.cancelled_eq_false hfree)) hnext
    have hrest := ih (hs'.trans hundergoes) later (hawaits.since hs') hlater
    rw [hundergoes.memory] at hrest
    dsimp only at houtcome
    rw [houtcome]
    exact hrest
  | case6 turns turn c s _ joined s' hjoin spent settle c' hresult hc hstop =>
    obtain ⟨hs', houtcome⟩ := p.outcome_of_joinHanded first rest hs behind hjoin
    rw [hresult] at houtcome
    rw [Bool.not_eq_true] at hc
    have hcalm := (sameStore_of_joinHanded hjoin).cancelled_eq_false hc
    refine ⟨hs', settle_ok_of_trouble hs' hfeed (fun hfailed => ?_) watched _⟩
    -- the scan has not failed and the run is not cancelled, so nothing is left
    have hbehind : behind = [] := by
      cases hwait : turn.feed with
      | failed e => exact absurd hwait (hfailed e)
      | ended =>
        rw [hwait] at hfeed
        exact hfeed.resolve_right (by simp [hcalm])
      | waiting page full =>
        cases turns with
        | zero => exact List.length_eq_zero_iff.mp (Nat.le_zero.mp (hturns hcalm))
        | succ turns => exact (hstop turns page full rfl hwait).elim
    subst hbehind
    exact houtcome

/-- **A query gives what the collector makes of the rows of the nested loop**,
or it fails for a reason, whoever watches. -/
theorem run_of_trouble (p : SelectPlan) (watched : Bool) (s : Session) (hsteps : p.steps ≠ [])
    (hcap : 0 < p.capacity) :
    s.Undergoes (p.run watched s).2
      ∧ (p.run watched s).1.RightOrDueTo s
        (p.outcome (completions s.store.memory p.steps (Row.empty p.slotCount)) (.ofPlan p)) := by
  unfold run
  cases hp : p.steps with
  | nil => exact absurd hp hsteps
  | cons first rest =>
    have hs := undergoes_firstTurn (first.pattern.lookup (Row.empty p.slotCount)) p.capacity s
    obtain ⟨behind, hscan, hfeed⟩ :=
      handsOn_firstTurn (first.pattern.lookup (Row.empty p.slotCount)) hcap s
    dsimp only
    revert hs hscan hfeed
    rcases firstTurn (first.pattern.lookup (Row.empty p.slotCount)) p.capacity s with ⟨turn, s'⟩
    intro hs hscan hfeed
    have hlength : behind.length ≤ s'.store.memory.size := by
      have h := s.store.memory.length_scan_le (first.pattern.lookup (Row.empty p.slotCount))
      rw [hscan, List.length_append] at h
      rw [hs.memory]
      omega
    have hturns := p.takeTurns_of_trouble watched first rest hcap hs s'.store.memory.size turn
      behind (.ofPlan p) hfeed fun _ => hlength
    rw [hs.memory, ← hscan] at hturns
    rw [hs.memory]
    exact hturns

/-- **An undisturbed answer is the nested loop**: whatever the capacity and
whoever watches, the answer has what the collector makes of its rows, and the
session stays as it was. -/
theorem run_of_calm (p : SelectPlan) (watched : Bool) {s : Session} (hs : s.Calm)
    (hsteps : p.steps ≠ []) (hcap : 0 < p.capacity) :
    p.run watched s = (.finished (p.outcome
      (completions s.store.memory p.steps (Row.empty p.slotCount)) (.ofPlan p)), s) := by
  obtain ⟨hundergoes, hright⟩ := p.run_of_trouble watched s hsteps hcap
  exact Prod.ext (hright.of_calm hs) (hundergoes.calm hs)

end SelectPlan

end TripleScript
