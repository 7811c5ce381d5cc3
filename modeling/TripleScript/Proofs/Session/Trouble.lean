import TripleScript.Proofs.Session.Frame

/-!
# What can go wrong

A store can fail at any request, and a request can cancel the run. What comes
of that is never out of nothing: an error is that of a fault that was in wait,
and a run that is cancelled has been cancelled before or by such a fault
(`ExecuteError.DueTo`). Reading uses faults up and brings no new ones
(`Session.Undergoes`), so a failure late in a query is due to what was in wait
when it began. If nothing was, the session is calm, and reading leaves it as
it is.
-/

namespace TripleScript

/-- **Nothing disturbs the session**: no fault is in wait, and the run has not
been cancelled. -/
structure Session.Calm (s : Session) : Prop where
  /-- No fault is in wait. -/
  fault : s.store.fault = []
  /-- The run has not been cancelled. -/
  cancelled : s.cancelled = false

/-- A store that has just been opened is not disturbed. -/
theorem Session.calm_begin (memory : MemoryStore) (access : Access) :
    (Session.begin { memory, access }).Calm :=
  ⟨rfl, rfl⟩

/-- A request is answered where no fault is in wait. -/
theorem Session.ask_of_fault_eq_nil {s : Session} (hs : s.store.fault = []) {α : Type}
    (r : Request) (reply : Store → α) : Session.ask r reply s = .ok (reply s.store) s := by
  have hpass := Request.pass_of_fault_eq_nil (r := r) hs
  simp only [Session.ask, bind, EStateM.bind, hpass]
  rfl

/-- A fault is in wait that strikes a request in some way. -/
def Session.Threatens (s : Session) (r : Request) (strike : Strike) : Prop :=
  ∃ f ∈ s.store.fault, f.on = r ∧ f.strike = strike

/-- The requests with which a query is answered. -/
def Request.isReading : Request → Bool
  | scan => true
  | page => true
  | _ => false

/-- **A failure is due to trouble that was in wait**: a fault fails a request
with this error, or the run has been cancelled or is going to be. -/
inductive ExecuteError.DueTo (s : Session) : ExecuteError → Prop where
  /-- A fault fails a scan or a page. -/
  | fault {r : Request} {e : SystemError} (hr : r.isReading = true)
      (h : s.Threatens r (.fail e)) : DueTo s (.store e)
  /-- The run is cancelled already. -/
  | cancelled (h : s.cancelled = true) : DueTo s .cancelled
  /-- A fault cancels the run at a scan or a page. -/
  | callOff {r : Request} (hr : r.isReading = true) (h : s.Threatens r .cancel) :
      DueTo s .cancelled

/-- **Nothing is due to trouble where there is none.** -/
theorem Session.Calm.not_dueTo {s : Session} (hs : s.Calm) (e : ExecuteError) :
    ¬e.DueTo s := by
  have hthreat : ∀ r strike, ¬s.Threatens r strike := by
    rintro r strike ⟨f, hf, -⟩
    rw [hs.fault] at hf
    cases hf
  intro h
  cases h with
  | fault _ hf => exact hthreat _ _ hf
  | cancelled hc => exact Bool.false_ne_true (hs.cancelled.symm.trans hc)
  | callOff _ hf => exact hthreat _ _ hf

/-- **Nothing but reading lies between two sessions**: the store is the same,
and whatever is wrong now was in wait before. -/
structure Session.Undergoes (s s' : Session) : Prop extends s.SameStore s' where
  /-- No fault is new. -/
  threatens : ∀ r strike, s'.Threatens r strike → s.Threatens r strike
  /-- Who cancels the run was there before. -/
  due : s'.cancelled = true → ExecuteError.cancelled.DueTo s
  /-- Nothing has changed if nothing was wrong. -/
  calm : s.Calm → s' = s

namespace Session.Undergoes

variable {s s' s'' : Session}

protected theorem refl (s : Session) : s.Undergoes s where
  toSameStore := .refl s
  threatens _ _ h := h
  due h := .cancelled h
  calm _ := rfl

/-- **What is wrong later is due to what was in wait before.** -/
theorem dueTo (h : s.Undergoes s') {e : ExecuteError} (he : e.DueTo s') : e.DueTo s := by
  cases he with
  | fault hr hf => exact .fault hr (h.threatens _ _ hf)
  | cancelled hc => exact h.due hc
  | callOff hr hf => exact .callOff hr (h.threatens _ _ hf)

protected theorem trans (h : s.Undergoes s') (h' : s'.Undergoes s'') : s.Undergoes s'' where
  toSameStore := h.toSameStore.trans h'.toSameStore
  threatens r strike hf := h.threatens r strike (h'.threatens r strike hf)
  due hc := h.dueTo (h'.due hc)
  calm hs := by
    obtain rfl := h.calm hs
    exact h'.calm hs

end Session.Undergoes

namespace Request

variable {r : Request} {fs : List Fault}

/-- What a request leaves in wait was in wait before. -/
theorem exists_of_mem_left {f : Fault} (h : f ∈ (r.meet fs).left) :
    ∃ f' ∈ fs, f'.on = f.on ∧ f'.strike = f.strike := by
  fun_induction meet r fs with
  | case1 => cases h
  | case2 g fs hon n hwaits behind ih => grind
  | case3 => grind
  | case4 => grind
  | case5 => grind

/-- A request that cancels the run has met a fault that does. -/
theorem exists_of_callsOff (h : (r.meet fs).callsOff = true) :
    ∃ f ∈ fs, f.on = r ∧ f.strike = .cancel := by
  fun_induction meet r fs with
  | case1 => cases h
  | case2 g fs hon n hwaits behind ih => grind
  | case3 => grind
  | case4 => grind
  | case5 => grind

/-- A request that fails has met a fault with that error. -/
theorem exists_of_failure {e : SystemError} (h : (r.meet fs).failure = some e) :
    ∃ f ∈ fs, f.on = r ∧ f.strike = .fail e := by
  fun_induction meet r fs with
  | case1 => cases h
  | case2 g fs hon n hwaits behind ih => grind
  | case3 => grind
  | case4 => grind
  | case5 => grind

variable (s : Session)

/-- Passing a request leaves the faults that have not struck. -/
theorem fault_behind_pass (r : Request) :
    (SessionM.behind r.pass s).store.fault = (r.meet s.store.fault).left := by
  unfold SessionM.behind pass
  dsimp only
  cases (r.meet s.store.fault).failure <;> cases (r.meet s.store.fault).callsOff <;> rfl

/-- Passing a request cancels the run if a fault calls it off. -/
theorem cancelled_behind_pass (r : Request) :
    (SessionM.behind r.pass s).cancelled
      = (s.cancelled || (r.meet s.store.fault).callsOff) := by
  unfold SessionM.behind pass
  dsimp only
  cases (r.meet s.store.fault).failure <;> cases (r.meet s.store.fault).callsOff <;>
    simp [Session.withFault, Session.callOff]

/-- A request that is not passed has failed. -/
theorem failure_of_pass {s s' : Session} {e : SystemError} (h : r.pass s = .error e s') :
    (r.meet s.store.fault).failure = some e := by
  unfold pass at h
  dsimp only at h
  cases hfailure : (r.meet s.store.fault).failure with
  | none =>
    rw [hfailure] at h
    cases h
  | some e' =>
    rw [hfailure] at h
    cases h
    rfl

/-- **Passing a request to read uses up faults** and may cancel the run. -/
theorem undergoes_pass (hr : r.isReading = true) :
    s.Undergoes (SessionM.behind r.pass s) where
  toSameStore := SessionM.KeepsStore.pass r s
  threatens r' strike := by
    rintro ⟨f, hf, rfl, rfl⟩
    rw [fault_behind_pass] at hf
    exact exists_of_mem_left hf
  due hc := by
    rw [cancelled_behind_pass, Bool.or_eq_true] at hc
    rcases hc with hc | hc
    · exact .cancelled hc
    · exact .callOff hr (exists_of_callsOff hc)
  calm hs := by
    unfold SessionM.behind
    rw [pass_of_fault_eq_nil hs.fault]

end Request

/-- Asking the store does to the session what passing the request does. -/
theorem Session.behind_ask (r : Request) {α : Type} (reply : Store → α) (s : Session) :
    SessionM.behind (Session.ask r reply) s = SessionM.behind r.pass s := by
  simp only [SessionM.behind, Session.ask, bind, EStateM.bind]
  cases r.pass s <;> rfl

/-- A request that cancels the run has met a fault that does. -/
theorem Session.threatens_of_ask {r : Request} {α : Type} (reply : Store → α) {s : Session}
    (hfree : s.cancelled = false)
    (h : (SessionM.behind (Session.ask r reply) s).cancelled = true) :
    s.Threatens r .cancel := by
  rw [behind_ask, Request.cancelled_behind_pass, hfree, Bool.false_or] at h
  exact Request.exists_of_callsOff h

/-- **Asking the store is answered**, or a fault has failed the request. -/
theorem Session.ask_of_trouble {r : Request} (hr : r.isReading = true) {α : Type}
    (reply : Store → α) (s : Session) :
    match Session.ask r reply s with
    | .ok a s' => a = reply s'.store ∧ s.Undergoes s'
    | .error e s' => s.Undergoes s' ∧ (ExecuteError.store e).DueTo s := by
  have hpass := Request.undergoes_pass s hr
  unfold SessionM.behind at hpass
  simp only [Session.ask, bind, EStateM.bind]
  cases h : r.pass s with
  | error e s' =>
    rw [h] at hpass
    exact ⟨hpass, .fault hr (Request.exists_of_failure (Request.failure_of_pass h))⟩
  | ok _ s' =>
    rw [h] at hpass
    exact ⟨rfl, hpass⟩

namespace Session

variable {s s' : Session} {l : Lookup}

/-- A scan that has been made gives its triples, and making it only reads. -/
theorem undergoes_of_scan {ts : List Triple} (h : Session.scan l s = .ok ts s') :
    ts = s.store.memory.scan l ∧ s.Undergoes s' := by
  have hask := Session.ask_of_trouble (r := .scan) rfl (fun store => store.memory.scan l) s
  unfold Session.scan at h
  rw [h] at hask
  obtain ⟨rfl, hs⟩ := hask
  exact ⟨by rw [hs.memory], hs⟩

/-- A scan that cannot be made is due to a fault. -/
theorem dueTo_of_scan {e : SystemError} (h : Session.scan l s = .error e s') :
    s.Undergoes s' ∧ (ExecuteError.store e).DueTo s := by
  have hask := Session.ask_of_trouble (r := .scan) rfl (fun store => store.memory.scan l) s
  unfold Session.scan at h
  rwa [h] at hask

/-- A page that has been read is the page, and reading it only reads. -/
theorem undergoes_of_page {after : Option Triple} {n : ℕ} {ts : List Triple}
    (h : Session.page l after n s = .ok ts s') :
    ts = s.store.memory.page s.store.access l after n ∧ s.Undergoes s' := by
  have hask := Session.ask_of_trouble (r := .page) rfl
    (fun store => store.memory.page store.access l after n) s
  unfold Session.page at h
  rw [h] at hask
  obtain ⟨rfl, hs⟩ := hask
  exact ⟨by rw [hs.memory, hs.access], hs⟩

/-- A page that cannot be read is due to a fault. -/
theorem dueTo_of_page {after : Option Triple} {n : ℕ} {e : SystemError}
    (h : Session.page l after n s = .error e s') :
    s.Undergoes s' ∧ (ExecuteError.store e).DueTo s := by
  have hask := Session.ask_of_trouble (r := .page) rfl
    (fun store => store.memory.page store.access l after n) s
  unfold Session.page at h
  rwa [h] at hask

end Session

end TripleScript
