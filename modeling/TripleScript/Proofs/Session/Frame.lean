import TripleScript.Plan.Make
import TripleScript.Proofs.Store.History
import TripleScript.Select.Answer

/-!
# What reading leaves alone

Answering a query asks the store many things and changes none. What a request
may change is which faults are still to strike, and whether the run is
cancelled; what the store holds stays, also where a request fails, where a
scan breaks off and where a join is given up. `Session.SameStore` is that
frame, `SessionM.KeepsStore` says that a step respects it, and the lemmas
follow the way a query is answered, from one request to `SelectPlan.run`.

Writing is the other half: `Session.insert` and `Session.erase` do to the set
of triples all that they are asked for or nothing
(`Session.contents_insert`, `Session.contents_erase`).
-/

namespace TripleScript

/-- **Only faults and cancellation lie between two sessions**: the store holds
the same, is asked in the same way, and a cancelled run stays cancelled. -/
structure Session.SameStore (s s' : Session) : Prop where
  /-- What the store holds. -/
  memory : s'.store.memory = s.store.memory
  /-- How the store finds pages and counts. -/
  access : s'.store.access = s.store.access
  /-- Cancellation is for good. -/
  cancelled : s.cancelled = true → s'.cancelled = true

namespace Session.SameStore

protected theorem refl (s : Session) : SameStore s s := ⟨rfl, rfl, id⟩

protected theorem trans {s s' s'' : Session} (h : SameStore s s') (h' : SameStore s' s'') :
    SameStore s s'' :=
  ⟨h'.memory.trans h.memory, h'.access.trans h.access, fun hs => h'.cancelled (h.cancelled hs)⟩

/-- A run that is not cancelled has not been cancelled before. -/
theorem cancelled_eq_false {s s' : Session} (h : SameStore s s') (hc : s'.cancelled = false) :
    s.cancelled = false := by
  rw [← Bool.not_eq_true] at hc ⊢
  exact mt h.cancelled hc

end Session.SameStore

namespace SessionM

variable {ε ε' α β : Type}

theorem get_apply (s : Session) : (get : SessionM ε Session) s = .ok s s := rfl

/-- The session that a step leaves behind, whether it succeeds or fails. -/
def behind (x : SessionM ε α) (s : Session) : Session :=
  match x s with
  | .ok _ s => s
  | .error _ s => s

/-- The step only reads. -/
def KeepsStore (x : SessionM ε α) : Prop := ∀ s : Session, s.SameStore (behind x s)

namespace KeepsStore

/-- A step that only reads, seen from its success. -/
theorem of_ok {x : SessionM ε α} (hx : KeepsStore x) {s s' : Session} {a : α}
    (h : x s = .ok a s') : s.SameStore s' := by
  have hs := hx s
  unfold behind at hs
  rwa [h] at hs

theorem of_error {x : SessionM ε α} (hx : KeepsStore x) {s s' : Session} {e : ε}
    (h : x s = .error e s') : s.SameStore s' := by
  have hs := hx s
  unfold behind at hs
  rwa [h] at hs

/-- Giving a value does not touch the session. -/
protected theorem pure (a : α) : KeepsStore (pure a : SessionM ε α) :=
  fun s => .refl s

protected theorem throw (e : ε) : KeepsStore (throw e : SessionM ε α) :=
  fun s => .refl s

protected theorem get : KeepsStore (get : SessionM ε Session) :=
  fun s => .refl s

/-- **Steps that only read make a row of steps that only reads.** -/
protected theorem bind {x : SessionM ε α} {f : α → SessionM ε β} (hx : KeepsStore x)
    (hf : ∀ a, KeepsStore (f a)) : KeepsStore (x >>= f) := by
  intro s
  show s.SameStore (behind (EStateM.bind x f) s)
  unfold behind EStateM.bind
  cases h : x s with
  | error e s' => exact hx.of_error h
  | ok a s' => exact (hx.of_ok h).trans (hf a s')

/-- Renaming a failure does not touch the session. -/
protected theorem adaptExcept {x : SessionM ε α} (f : ε → ε') (hx : KeepsStore x) :
    KeepsStore (EStateM.adaptExcept f x : SessionM ε' α) := by
  intro s
  unfold behind EStateM.adaptExcept
  cases h : x s with
  | error e s' => exact hx.of_error h
  | ok a s' => exact hx.of_ok h

/-- **Passing a request touches faults and cancellation only.** -/
protected theorem pass (r : Request) : KeepsStore r.pass := by
  intro s
  unfold behind Request.pass
  dsimp only
  cases (r.meet s.store.fault).failure <;> cases (r.meet s.store.fault).callsOff <;>
    exact ⟨rfl, rfl, by simp [Session.withFault, Session.callOff]⟩

protected theorem ask (r : Request) (reply : Store → α) : KeepsStore (Session.ask r reply) :=
  .bind (.pass r) fun _ => .bind .get fun _ => .pure _

protected theorem scan (l : Lookup) : KeepsStore (Session.scan l) := .ask _ _

protected theorem page (l : Lookup) (after : Option Triple) (n : ℕ) :
    KeepsStore (Session.page l after n) := .ask _ _

protected theorem count (l : Lookup) : KeepsStore (Session.count l) := .ask _ _

protected theorem checkCancelled : KeepsStore checkCancelled := by
  refine .bind .get fun s => ?_
  split
  · exact .throw _
  · exact .pure _

protected theorem collect (row : Row) (c : Collector) : KeepsStore (collect row c) := by
  unfold collect
  split
  · exact .throw _
  · exact .pure _

/-- Joining the triples of a scan only reads if the scans behind it do. -/
protected theorem joinEach (p : SlotPattern) (row : Row)
    {next : Row → Collector → SelectM (Bool × Collector)}
    (hnext : ∀ row c, KeepsStore (next row c)) (ts : List Triple) (c : Collector) :
    KeepsStore (joinEach p row next ts c) := by
  induction ts generalizing c with
  | nil => exact .pure _
  | cons t ts ih =>
    unfold joinEach
    split
    · exact ih c
    · refine .bind (hnext _ c) fun r => ?_
      dsimp only
      split
      · exact ih _
      · exact .pure _

/-- **Joining scans only reads.** -/
protected theorem extend (steps : List ScanStep) (row : Row) (c : Collector) :
    KeepsStore (extend steps row c) := by
  induction steps generalizing row c with
  | nil => exact .collect row c
  | cons step steps ih =>
    exact .bind .checkCancelled fun _ =>
      .bind (.adaptExcept _ (.scan _)) fun ts => .joinEach _ row ih ts c

/-- Asking for the estimates of scans only reads. -/
protected theorem estimateScans (source : ℕ) (ps : List SlotPattern) :
    KeepsStore (estimateScans source ps) := by
  induction ps generalizing source with
  | nil => exact .pure _
  | cons p ps ih => exact .bind (.count _) fun _ => .bind (ih _) fun _ => .pure _

end KeepsStore

end SessionM

/-! ## Answering a query -/

/-- **A turn of the first scan only reads.** -/
theorem sameStore_handOver (l : Lookup) (capacity quota : ℕ) (page : List Triple)
    (full : Bool) (s : Session) : s.SameStore (handOver l capacity quota page full s).2 := by
  fun_induction handOver l capacity quota page full s with
  | case1 => exact .refl _
  | case2 => exact .refl _
  | case3 => exact .refl _
  | case4 quota t page s _ _ e s' h => exact (SessionM.KeepsStore.page l _ _).of_error h
  | case5 quota t page s _ _ next s' h turn s'' hrest ih =>
    rw [hrest] at ih
    exact ((SessionM.KeepsStore.page l _ _).of_ok h).trans ih
  | case6 => exact .refl _
  | case7 quota t page full s _ _ turn s' hrest ih =>
    rwa [hrest] at ih

theorem sameStore_firstTurn (l : Lookup) (capacity : ℕ) (s : Session) :
    s.SameStore (firstTurn l capacity s).2 := by
  unfold firstTurn
  cases h : Session.page l none capacity s with
  | error e s' => exact (SessionM.KeepsStore.page l _ _).of_error h
  | ok page s' =>
    exact ((SessionM.KeepsStore.page l _ _).of_ok h).trans (sameStore_handOver ..)

namespace SelectPlan

theorem keepsStore_joinTriple (p : SelectPlan) (first : ScanStep) (rest : List ScanStep)
    (t : Triple) (c : Collector) :
    SessionM.KeepsStore (p.joinTriple first rest t c) := by
  unfold joinTriple
  split
  · exact .pure _
  · exact .extend rest _ c

/-- A turn of the join only reads. -/
theorem sameStore_joinHanded (p : SelectPlan) (first : ScanStep) (rest : List ScanStep)
    (ts : List Triple) (c : Collector) (s : Session) :
    s.SameStore (p.joinHanded first rest ts c s).2 := by
  fun_induction joinHanded p first rest ts c s with
  | case1 => exact .refl _
  | case2 => exact .refl _
  | case3 t ts c s _ e s' h => exact (p.keepsStore_joinTriple first rest t c).of_error h
  | case4 t ts c s _ c' s' h => exact (p.keepsStore_joinTriple first rest t c).of_ok h
  | case5 t ts c s _ c' s' h ih =>
    exact ((p.keepsStore_joinTriple first rest t c).of_ok h).trans ih

theorem sameStore_of_joinHanded {p : SelectPlan} {first : ScanStep} {rest : List ScanStep}
    {ts : List Triple} {c : Collector} {s s' : Session} {joined : Joined}
    (h : p.joinHanded first rest ts c s = (joined, s')) : s.SameStore s' := by
  have hs := p.sameStore_joinHanded first rest ts c s
  rwa [h] at hs

/-- The turns that follow one another only read. -/
theorem sameStore_takeTurns (p : SelectPlan) (watched : Bool) (first : ScanStep)
    (rest : List ScanStep) (turns : ℕ) (turn : Turn) (c : Collector) (s : Session) :
    s.SameStore (p.takeTurns watched first rest turns turn c s).2 := by
  fun_induction takeTurns p watched first rest turns turn c s with
  | case1 => exact .refl _
  | case2 turns turn c s _ joined s' h => exact sameStore_of_joinHanded h
  | case3 turns turn c s _ joined s' h => exact sameStore_of_joinHanded h
  | case4 turns turn c s _ joined s' h => exact sameStore_of_joinHanded h
  | case5 turn c s _ joined s' h c' _ _ turns page full _ next s'' hturn ih =>
    have hs := sameStore_handOver (first.pattern.lookup (Row.empty p.slotCount)) p.capacity
      (turnQuota p.capacity) page full s'
    rw [hturn] at hs
    exact ((sameStore_of_joinHanded h).trans hs).trans ih
  | case6 turns turn c s _ joined s' h => exact sameStore_of_joinHanded h

/-- **Answering a query only reads.** -/
theorem sameStore_run (p : SelectPlan) (watched : Bool) (s : Session) :
    s.SameStore (p.run watched s).2 := by
  unfold run
  split
  · exact .refl s
  · exact (sameStore_firstTurn ..).trans (p.sameStore_takeTurns ..)

end SelectPlan

/-! ## Making a plan -/

theorem keepsStore_queryPlan (capacity : ℕ) (q : Query) :
    SessionM.KeepsStore (q.plan capacity) := by
  unfold Query.plan
  dsimp only
  split
  · exact fun s => .refl s
  · split
    · exact fun s => .refl s
    · exact .bind (.adaptExcept _ (.estimateScans 0 q.patterns)) fun _ => .pure _

/-- A store that takes no writes refuses them untouched. -/
theorem keepsStore_refuseReadOnly (verb : Verb) :
    SessionM.KeepsStore (refuseReadOnly verb) := by
  refine .bind .get fun s => ?_
  dsimp only
  split
  · exact .throw _
  · exact .pure _

/-- **Planning only reads.** -/
theorem keepsStore_plan (capacity : ℕ) (c : Command) :
    SessionM.KeepsStore (c.plan capacity) := by
  cases c with
  | insert ts => exact .bind (keepsStore_refuseReadOnly _) fun _ => .pure _
  | delete ts => exact .bind (keepsStore_refuseReadOnly _) fun _ => .pure _
  | select q => exact .bind (keepsStore_queryPlan capacity q) fun _ => .pure _

/-! ## Writing -/

namespace Session

def contents (s : Session) : Finset Triple := s.store.memory.triples.contents

theorem SameStore.contents_eq {s s' : Session} (h : s.SameStore s') :
    s'.contents = s.contents := by
  unfold contents
  rw [h.memory]

/-- **A write that fails changes nothing.** -/
theorem sameStore_of_write_eq_error {r : Request}
    {change : MemoryStore → Except SystemError (ℕ × MemoryStore)} {s s' : Session}
    {e : SystemError} (h : write r change s = .error e s') : s.SameStore s' := by
  simp only [write, bind, EStateM.bind] at h
  cases hpass : r.pass s with
  | error e' s₁ =>
    simp only [hpass] at h
    cases h
    exact (SessionM.KeepsStore.pass r).of_error hpass
  | ok _ s₁ =>
    simp only [hpass, SessionM.get_apply] at h
    cases hc : change s₁.store.memory with
    | error e' =>
      simp only [hc] at h
      cases h
      exact (SessionM.KeepsStore.pass r).of_ok hpass
    | ok result =>
      simp only [hc] at h
      cases h

/-- **A write that succeeds makes its change**, and no other. -/
theorem of_write_eq_ok {r : Request}
    {change : MemoryStore → Except SystemError (ℕ × MemoryStore)} {s s' : Session} {n : ℕ}
    (h : write r change s = .ok n s') :
    change s.store.memory = .ok (n, s'.store.memory) := by
  simp only [write, bind, EStateM.bind] at h
  cases hpass : r.pass s with
  | error e s₁ => simp only [hpass, reduceCtorEq] at h
  | ok _ s₁ =>
    have hmemory := ((SessionM.KeepsStore.pass r).of_ok hpass).memory
    simp only [hpass, SessionM.get_apply] at h
    cases hc : change s₁.store.memory with
    | error e =>
      simp only [hc] at h
      cases h
    | ok result =>
      simp only [hc] at h
      cases h
      rw [← hmemory]
      exact hc

end Session

/-! ## Carrying out a plan -/

/-- What a plan makes of a set of triples if it is carried out. -/
def Plan.onSet (S : Finset Triple) : Plan → Finset Triple
  | insert ts => S ∪ ts.toFinset
  | delete ts => S \ ts.toFinset
  | select _ => S

/-- **A plan does all of its work or none**: what the store holds afterwards is
what the plan makes of it if the plan ended with an answer, and what it held
before if it ended in any other way. -/
theorem contents_run (p : Plan) (watched : Bool) (s : Session) :
    (p.run watched s).2.contents
      = match (p.run watched s).1 with
        | .finished (.ok _) => p.onSet s.contents
        | _ => s.contents := by
  unfold Plan.run
  split
  case isTrue => rfl
  case isFalse =>
    cases p with
    | insert ts =>
      dsimp only [Ending.ofWrite]
      cases h : Session.insert ts s with
      | error e s' => exact (Session.sameStore_of_write_eq_error h).contents_eq
      | ok n s' => exact MemoryStore.contents_of_insert (Session.of_write_eq_ok h)
    | delete ts =>
      dsimp only [Ending.ofWrite]
      cases h : Session.erase ts s with
      | error e s' => exact (Session.sameStore_of_write_eq_error h).contents_eq
      | ok n s' => exact MemoryStore.contents_of_erase (Session.of_write_eq_ok h)
    | select p =>
      -- whatever the answer is, a query has only read
      dsimp only
      rw [(p.sameStore_run watched s).contents_eq]
      split <;> rfl

end TripleScript
