import TripleScript.Store.Memory

/-!
# Sessions

The statements of a run share a store and a mark that says whether the run
has been cancelled. Together they are the `Session`, and whatever is asked of
the store passes through it, so that a request can do two things besides
answering: it can fail, and it can cancel the run.

A `Fault` says when and how that happens. It waits for a number of requests
of one kind to pass, strikes at the next one and is spent. A store may have
any number of faults in wait, and a request meets them one after the other;
a store without a fault answers every request.

A run can be cancelled without its store, and then the next run on the store
begins afresh. A fault that cancels a run calls off the store, and so every
run that follows is cancelled from the beginning: `Session.begin`.
-/

namespace TripleScript

/-- The requests a store can be asked for while a statement is planned and
run. -/
inductive Request where
  /-- To add triples. -/
  | insert
  /-- To remove triples. -/
  | erase
  /-- To give all triples a lookup accepts. -/
  | scan
  /-- To give some of them after a cursor. -/
  | page
  /-- To count them. -/
  | count
deriving DecidableEq, Inhabited, Repr

/-- What a fault does to the request it strikes. -/
inductive Strike where
  /-- The request fails and does nothing. -/
  | fail (e : SystemError)
  /-- The store is called off, which cancels the run, and then the request is
  answered. -/
  | cancel
deriving DecidableEq, Inhabited, Repr

/-- A fault that strikes once. -/
structure Fault where
  /-- The kind of request it waits for. -/
  on : Request
  /-- How many requests of that kind pass first. -/
  waits : Nat
  /-- What it does then. -/
  strike : Strike
deriving DecidableEq, Inhabited, Repr

/-- A store has no fault in wait, or one, as a special case of any number. -/
instance : Coe (Option Fault) (List Fault) := ⟨Option.toList⟩

/-- A store as a run has it. -/
structure Store where
  /-- What the store holds. -/
  memory : MemoryStore
  /-- How it finds pages and counts. -/
  access : Access := .indexed
  /-- What is still to strike, in the order in which a request meets it. -/
  fault : List Fault := []
  /-- Whether a fault has called off the store, and with it the runs on it. -/
  calledOff : Bool := false

instance : Inhabited Store := ⟨{ memory := default }⟩

/-- What the statements of a run share. -/
structure Session where
  /-- The store. -/
  store : Store
  /-- Whether the run has been cancelled. -/
  cancelled : Bool := false

instance : Inhabited Session := ⟨{ store := default }⟩

/-- A step that uses the session and may fail; what it did to the session
stays. -/
abbrev SessionM (ε α : Type) := EStateM ε Session α

namespace Session

/-- The session with another memory. -/
def withMemory (s : Session) (memory : MemoryStore) : Session :=
  { s with store := { s.store with memory } }

/-- The session with other faults to come. -/
def withFault (s : Session) (fault : List Fault) : Session :=
  { s with store := { s.store with fault } }

/-- The session, cancelled. -/
def cancel (s : Session) : Session :=
  { s with cancelled := true }

/-- The session, cancelled together with all that follow on its store. -/
def callOff (s : Session) : Session :=
  { s with store := { s.store with calledOff := true }, cancelled := true }

/-- The session in which a run on a store begins. -/
def begin (store : Store) (cancelled : Bool := false) : Session :=
  { store, cancelled := cancelled || store.calledOff }

end Session

namespace Request

/-- What faults make of a request. -/
structure Encounter where
  /-- The faults that are still to strike. -/
  left : List Fault := []
  /-- Whether one of them calls off the store. -/
  callsOff : Bool := false
  /-- Why the request fails, if one of them makes it fail. -/
  failure : Option SystemError := none
deriving DecidableEq, Inhabited, Repr

/-- **A request meets the faults in wait**: one that waits for its kind comes
one request closer, or strikes. A request that fails gets no further. -/
def meet (r : Request) : List Fault → Encounter
  | [] => {}
  | f :: fs =>
    if f.on = r then
      match f.waits, f.strike with
      | n + 1, _ =>
        let behind := r.meet fs
        { behind with left := { f with waits := n } :: behind.left }
      | 0, .fail e => { left := fs, failure := some e }
      | 0, .cancel => { r.meet fs with callsOff := true }
    else
      let behind := r.meet fs
      { behind with left := f :: behind.left }

/-- Passing a request to the store. -/
def pass (r : Request) : SessionM SystemError Unit := fun s =>
  let encounter := r.meet s.store.fault
  let s := s.withFault encounter.left
  let s := if encounter.callsOff then s.callOff else s
  match encounter.failure with
  | none => .ok () s
  | some e => .error e s

/-- Without a fault, passing a request does nothing. -/
theorem pass_of_fault_eq_nil {r : Request} {s : Session}
    (h : s.store.fault = []) : r.pass s = .ok () s := by
  obtain ⟨⟨memory, access, fault, calledOff⟩, cancelled⟩ := s
  cases h
  rfl

end Request

namespace Session

/-- What the store answers to a request, once it has passed. -/
def ask {α : Type} (r : Request) (reply : Store → α) : SessionM SystemError α := do
  r.pass
  return reply (← get).store

/-- What the store makes of a write, once the request has passed. -/
def write (r : Request)
    (change : MemoryStore → Except SystemError (Nat × MemoryStore)) :
    SessionM SystemError Nat := do
  r.pass
  let s ← get
  match change s.store.memory with
  | .error e => throw e
  | .ok (n, memory) =>
    set (s.withMemory memory)
    return n

/-- Adds triples and counts the new ones. -/
def insert (ts : List Triple) : SessionM SystemError Nat :=
  write .insert (·.insert ts)

/-- Removes triples and counts those that were there. -/
def erase (ts : List Triple) : SessionM SystemError Nat :=
  write .erase (·.erase ts)

/-- The triples a lookup accepts. -/
def scan (l : Lookup) : SessionM SystemError (List Triple) :=
  ask .scan fun store => store.memory.scan l

/-- At most `limit` of them after a cursor. -/
def page (l : Lookup) (after : Option Triple) (limit : Nat) :
    SessionM SystemError (List Triple) :=
  ask .page fun store => store.memory.page store.access l after limit

/-- Their number. -/
def count (l : Lookup) : SessionM SystemError Nat :=
  ask .count fun store => store.memory.count store.access l

end Session

end TripleScript
