import TripleScript.Select.Interleaving

/-!
# Two sides and a store that can fail

The parties of a query ask the store for pages and for scans, and a request can
meet a fault: it fails, or it cancels the run and is answered. Here they ask
through a session, as `SelectPlan.run` does, but in any order of their moves.

A page that fails ends the first scan, which leaves and closes the channel. All
that the join sees of it is the closed channel; what the scan has failed with
comes up only when the join has returned, and it counts before the rows then. A
page that cancels the run stops the scan itself, and the join does not learn of
it before its next look at the run. A scan that fails ends the join.

The other moves are those of `SelectTask.move`: a request is all that is
different (`SelectTask.exposedMove`).
-/

namespace TripleScript

/-- What the parties share when the store can fail, and how far each of them
is. -/
structure ExposedParties extends Parties where
  /-- The store, with the faults that are still to strike. -/
  store : Store
  /-- What the first scan has failed with. -/
  failure : Option SystemError

/-- What the join has returned. -/
def Parties.returned? (s : Parties) : Option (Except ExecuteError Table) :=
  match s.consumer with
  | .returned result => some result
  | _ => none

namespace ExposedParties

/-- The session through which the parties ask. -/
def session (s : ExposedParties) : Session :=
  ⟨s.store, s.cancelled⟩

/-- The parties after a request. -/
def withSession (s : ExposedParties) (session : Session) : ExposedParties :=
  { s with store := session.store, cancelled := session.cancelled }

end ExposedParties

namespace SelectTask

variable (task : SelectTask)

/-- The session in which the query is begun, with faults in wait. -/
def session (fault : List Fault) : Session :=
  .begin { memory := task.memory, access := task.access, fault }

/-- The parties before any move. -/
def exposedStart (fault : List Fault) : ExposedParties :=
  { task.start with store := (task.session fault).store, failure := none }

/-- The move of the first scan. -/
def exposedProduce (s : ExposedParties) : ExposedParties :=
  match s.producer with
  | .reading after =>
    match Session.page task.lookup after task.plan.capacity s.session with
    | .error e session =>
      { s.withSession session with producer := .leaving, failure := some e }
    | .ok page session =>
      { s.withSession session with
        producer := .looking page page.getLast? (task.plan.capacity ≤ page.length) }
  | _ => { s with toParties := task.produce s.toParties }

/-- The answer with the rows of a collector. What the first scan has failed with
counts before them. -/
def answerUnless (failure : Option SystemError) (c : Collector) : Except ExecuteError Table :=
  match failure with
  | some e => .error (.store e)
  | none => .ok (task.plan.answer c)

/-- The move of the join. -/
def exposedConsume (s : ExposedParties) : ExposedParties :=
  match s.consumer with
  | .extending ((row, step :: steps) :: work) c =>
    if s.cancelled then { s with consumer := .closing (.error .cancelled) }
    else
      match Session.scan (step.pattern.lookup row) s.session with
      | .error e session =>
        { s.withSession session with consumer := .closing (.error (.store e)) }
      | .ok ts session =>
        let extended := (ts.filterMap (step.pattern.bind · row)).map (·, steps)
        { s.withSession session with consumer := .extending (extended ++ work) c }
  | .closing (.ok c) =>
    if s.producer.isGone then { s with consumer := .returned (task.answerUnless s.failure c) }
    else s
  | _ => { s with toParties := task.consume s.toParties }

/-- **One move.** -/
def exposedMove (s : ExposedParties) : Move → ExposedParties
  | .produce => task.exposedProduce s
  | .consume => task.exposedConsume s
  | .cancel => { s with cancelled := true }

/-- **The parties after some moves**, with faults in wait at the beginning. -/
def exposedAfter (fault : List Fault) (moves : List Move) : ExposedParties :=
  moves.foldl task.exposedMove (task.exposedStart fault)

end SelectTask

end TripleScript
