import TripleScript.Select.Bind
import TripleScript.Select.Collector

/-!
# Joining scans

A row is extended scan by scan: the store is asked for the triples that agree
with what is bound, and each of them is bound and extended by the scans that
follow. A row with no scan left is complete and is collected. Joining stops
as soon as no more rows are wanted, and it fails if the run is found
cancelled before a scan or if a scan fails.

`joinEach` goes through the triples of one scan and `extend` through the
scans.
-/

namespace TripleScript

/-- A step of answering a query. -/
abbrev SelectM (α : Type) := SessionM ExecuteError α

/-- Fails if the run has been cancelled. -/
def checkCancelled : SelectM Unit := do
  if (← get).cancelled then throw .cancelled

/-- A complete row for the collector. -/
def collect (row : Row) (c : Collector) : SelectM (Bool × Collector) :=
  match c.push row with
  | .error e => throw e
  | .ok r => return r

/-- What `next` makes of the row bound to each of some triples in turn, for as
long as more rows are wanted. -/
def joinEach (p : SlotPattern) (row : Row)
    (next : Row → Collector → SelectM (Bool × Collector)) :
    List Triple → Collector → SelectM (Bool × Collector)
  | [], c => return (true, c)
  | t :: ts, c =>
    match p.bind t row with
    | none => joinEach p row next ts c
    | some extended => do
      let (more, c) ← next extended c
      if more then joinEach p row next ts c else return (false, c)

/-- **The rows that some scans make of a row**, put into the collector, and
whether more are wanted. -/
def extend : List ScanStep → Row → Collector → SelectM (Bool × Collector)
  | [], row, c => collect row c
  | step :: steps, row, c => do
    checkCancelled
    let ts ← EStateM.adaptExcept .store (Session.scan (step.pattern.lookup row))
    joinEach step.pattern row (extend steps) ts c

end TripleScript
