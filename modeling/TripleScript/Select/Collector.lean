import TripleScript.Plan.Basic
import TripleScript.SystemError
import TripleScript.Table

/-!
# Collecting rows

Complete rows are projected to the columns asked for and collected. A
collector that has as many rows as are wanted is full; when equal rows are to
be given once, a row that is there already is dropped and does not count.
-/

namespace TripleScript

/-- What can be wrong with a plan. -/
inductive PlanDefect where
  /-- A query without a scan. -/
  | noSteps
  /-- A column whose slot no scan has bound. -/
  | unboundSlot
deriving DecidableEq, Inhabited, Repr

/-- The wording of a defect. -/
def PlanDefect.text : PlanDefect → String
  | noSteps => "select plan has no steps"
  | unboundSlot => "projected slot left unbound"

/-- Why a plan could not be carried out. -/
inductive ExecuteError where
  /-- The run was cancelled. -/
  | cancelled
  /-- The store failed. -/
  | store (e : SystemError)
  /-- The first scan broke off without an error of its own. On a store in memory
  no step of it can: a page is given or fails with an error of the store, and
  whatever else the scan does is defined everywhere. So nothing ends like this. -/
  | producer (reason : String)
  /-- The plan makes no sense. -/
  | defect (d : PlanDefect)
deriving DecidableEq, Inhabited, Repr

/-- The message for the user. -/
def ExecuteError.message : ExecuteError → String
  | cancelled => "execution cancelled"
  | store e => e.message
  | producer reason => s!"scan producer failed: {reason}"
  | defect d => s!"internal error: {d.text}"

/-- The rows collected so far. -/
structure Collector where
  /-- The slots of the columns. -/
  projection : List Nat
  /-- Whether equal rows are collected once. -/
  distinct : Bool
  /-- How many rows are wanted at most. -/
  limit : Option Nat
  /-- The rows, in the order in which they came. -/
  rows : Array (List Node) := #[]
deriving DecidableEq, Inhabited, Repr

namespace Collector

/-- The collector for a plan, before any row. -/
def ofPlan (p : SelectPlan) : Collector where
  projection := p.projection
  distinct := p.distinct
  limit := p.limit

/-- Whether no more rows are wanted. -/
def isFull (c : Collector) : Bool :=
  c.limit.any (· ≤ c.rows.size)

/-- The nodes of a complete row in the columns. -/
def project? (c : Collector) (row : Row) : Option (List Node) :=
  c.projection.mapM row.node?

/-- **The collector with one more row**, and whether more rows are wanted. -/
def push (c : Collector) (row : Row) : Except ExecuteError (Bool × Collector) :=
  if c.isFull then .ok (false, c)
  else
    match c.project? row with
    | none => .error (.defect .unboundSlot)
    | some nodes =>
      if c.distinct && c.rows.contains nodes then .ok (true, c)
      else
        let c := { c with rows := c.rows.push nodes }
        .ok (!c.isFull, c)

end Collector

end TripleScript
