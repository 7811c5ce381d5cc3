import TripleScript.Select.Join

/-!
# Answering queries

The first scan of a query runs ahead of the join. It reads a page, hands its
triples on and reads the next page while they are waiting to be joined; so
there are never more than two pages around, and a join that needs no more
rows leaves the rest of the scan unread. A page shorter than asked for is the
last one.

The two sides take turns. In its turn the scan hands on as many triples as a
page can have, reading the next page as soon as one is used up (`handOver`);
then the join takes the triples handed on, one by one (`joinHanded`), and
looks before each of them whether the run has been cancelled. Neither side
handles more than `turnSize` triples in a turn, so that a long page does not
keep the other waiting. When the join is done, its own failure counts before
that of the scan, and the failure of the scan before the rows.

That is one order in which the two sides can move, and there are others
(`SelectTask.exposedAfter`). They all come to the same answer as long as no
request fails and nobody cancels the run, and they need not otherwise.

Between two turns whoever waits for the answer can give up. One who watches
the run does so as soon as it is cancelled, and then there is no answer at
all: `Ending.abandoned`.

`length_handed_le` says that a turn keeps to its quota.
-/

namespace TripleScript

/-- How many triples a side handles in one turn at most. -/
def turnSize : Nat := 128

/-- How the first scan goes on after a turn. -/
inductive Feed where
  /-- These triples of a page wait to be handed on; behind a full page there
  may be another. -/
  | waiting (page : List Triple) (full : Bool)
  /-- There is nothing more. -/
  | ended
  /-- Reading the next page failed. -/
  | failed (e : SystemError)
deriving DecidableEq, Inhabited, Repr

/-- Whether the scan has to be stopped if no more is wanted. -/
def Feed.isWaiting : Feed → Bool
  | waiting .. => true
  | _ => false

/-- What a turn of the first scan leaves behind. -/
structure Turn where
  /-- The triples handed on. -/
  handed : List Triple
  /-- How the scan goes on. -/
  feed : Feed
deriving DecidableEq, Inhabited, Repr

/-- The turn with a triple handed on before all others. -/
def Turn.after (t : Triple) (turn : Turn) : Turn :=
  { turn with handed := t :: turn.handed }

/-- How answering ends. -/
inductive Ending where
  /-- With an answer or an error. -/
  | finished (result : Except ExecuteError Table)
  /-- Without either: nobody waits for it any more. -/
  | abandoned

/-- The turn that hands on at most `quota` triples, of a page and of the pages
behind it. The next page is read when the last triple of a full one has been
handed on. A cancelled run is handed nothing. -/
def handOver (l : Lookup) (capacity : Nat) :
    (quota : Nat) → (page : List Triple) → (full : Bool) → Session → Turn × Session
  | _, [], _, s => (⟨[], .ended⟩, s)
  | 0, page, full, s => (⟨[], .waiting page full⟩, s)
  | quota + 1, t :: page, full, s =>
    if s.cancelled then (⟨[], .ended⟩, s)
    else if page.isEmpty then
      if full then
        match Session.page l (some t) capacity s with
        | .error e s => (⟨[t], .failed e⟩, s)
        | .ok next s =>
          let (turn, s) := handOver l capacity quota next (capacity ≤ next.length) s
          (turn.after t, s)
      else (⟨[t], .ended⟩, s)
    else
      let (turn, s) := handOver l capacity quota page full s
      (turn.after t, s)

/-- **A turn keeps to its quota.** -/
theorem length_handed_le (l : Lookup) (capacity quota : Nat) (page : List Triple)
    (full : Bool) (s : Session) :
    (handOver l capacity quota page full s).1.handed.length ≤ quota := by
  fun_induction handOver l capacity quota page full s <;> simp_all [Turn.after]

/-- How many triples the scan hands on in a turn at most. -/
def turnQuota (capacity : Nat) : Nat := min capacity turnSize

/-- The first turn of a scan. -/
def firstTurn (l : Lookup) (capacity : Nat) (s : Session) : Turn × Session :=
  match Session.page l none capacity s with
  | .error e s => (⟨[], .failed e⟩, s)
  | .ok page s => handOver l capacity (turnQuota capacity) page (capacity ≤ page.length) s

/-- What a turn of the join leaves behind. -/
structure Joined where
  /-- The triples it did not take. -/
  left : List Triple
  /-- Whether more rows are wanted, and the rows so far, or what went wrong. -/
  result : Except ExecuteError (Bool × Collector)

namespace SelectPlan

/-- The answer of a plan with the rows of a collector. -/
def answer (p : SelectPlan) (c : Collector) : Table :=
  ⟨p.columns, c.rows.toList⟩

/-- The rows that one triple of the first scan leads to, put into the
collector, and whether more are wanted. -/
def joinTriple (p : SelectPlan) (first : ScanStep) (rest : List ScanStep) (t : Triple)
    (c : Collector) : SelectM (Bool × Collector) :=
  match first.pattern.bind t (Row.empty p.slotCount) with
  | none => return (true, c)
  | some row => extend rest row c

/-- The turn that joins the triples handed on, as long as rows are wanted and
the run has not been cancelled. -/
def joinHanded (p : SelectPlan) (first : ScanStep) (rest : List ScanStep) :
    List Triple → Collector → Session → Joined × Session
  | [], c, s => (⟨[], .ok (true, c)⟩, s)
  | t :: ts, c, s =>
    if s.cancelled then (⟨t :: ts, .error .cancelled⟩, s)
    else
      match p.joinTriple first rest t c s with
      | .error e s => (⟨ts, .error e⟩, s)
      | .ok (false, c) s => (⟨ts, .ok (false, c)⟩, s)
      | .ok (true, c) s => p.joinHanded first rest ts c s

/-- The ending that a result of the join makes. If there is a pause before it
is given, because the scan has to be stopped or because the turn of the join
is over, one who watches has another look at the run. -/
def settle (watched paused : Bool) (feed : Feed) (s : Session)
    (result : Except ExecuteError Table) : Ending :=
  if watched && paused && s.cancelled then .abandoned
  else
    match result, feed with
    | .ok _, .failed e => .finished (.error (.store e))
    | result, _ => .finished result

/-- The turns after a turn of the scan, of which it has at most `turns`
more. -/
def takeTurns (p : SelectPlan) (watched : Bool) (first : ScanStep)
    (rest : List ScanStep) (turns : Nat) (turn : Turn) (c : Collector) (s : Session) :
    Ending × Session :=
  if watched && s.cancelled then (.abandoned, s)
  else
    let (joined, s) := p.joinHanded first rest turn.handed c s
    let spent := turn.handed.length = joined.left.length + turnSize
    let settle := settle watched (turn.feed.isWaiting || spent) turn.feed s
    match joined.result with
    | .error e => (settle (.error e), s)
    | .ok (false, c) => (settle (.ok (p.answer c)), s)
    | .ok (true, c) =>
      if s.cancelled then (settle (.error .cancelled), s)
      else
        match turns, turn.feed with
        | turns + 1, .waiting page full =>
          let (turn, s) := handOver (first.pattern.lookup (Row.empty p.slotCount))
            p.capacity (turnQuota p.capacity) page full s
          p.takeTurns watched first rest turns turn c s
        | _, _ => (settle (.ok (p.answer c)), s)

/-- **The answer to a query** whose two sides take turns. A scan that waits has
a triple to hand on, and no triple comes twice, so it has no more turns than the
store has triples. -/
def run (p : SelectPlan) (watched : Bool) (s : Session) : Ending × Session :=
  match p.steps with
  | [] => (.finished (.error (.defect .noSteps)), s)
  | first :: rest =>
    let (turn, s) := firstTurn (first.pattern.lookup (Row.empty p.slotCount)) p.capacity s
    p.takeTurns watched first rest s.store.memory.size turn (.ofPlan p) s

end SelectPlan

/-- The ending of a write: it has no rows to show. -/
def Ending.ofWrite (write : SessionM SystemError Nat) (s : Session) : Ending × Session :=
  match write s with
  | .error e s => (.finished (.error (.store e)), s)
  | .ok _ s => (.finished (.ok {}), s)

/-- **How carrying out a plan ends**, when somebody watches the run and when
nobody does. -/
def Plan.run (p : Plan) (watched : Bool) (s : Session) : Ending × Session :=
  if s.cancelled then (.finished (.error .cancelled), s)
  else
    match p with
    | .insert ts => Ending.ofWrite (Session.insert ts) s
    | .delete ts => Ending.ofWrite (Session.erase ts) s
    | .select p => p.run watched s

/-- **Carrying out a plan** that nobody watches. -/
def Plan.execute (p : Plan) (s : Session) : Except ExecuteError Table × Session :=
  match p.run false s with
  | (.finished result, s) => (result, s)
  | (.abandoned, s) => (.error .cancelled, s)

end TripleScript
