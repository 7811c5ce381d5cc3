import TripleScript.Query.Basic
import TripleScript.Session

/-!
# Plans

A plan says how a command is carried out. A query is answered by scans, one
for each pattern: the triples of the first scan are handed on page by page,
and each of them is extended by the triples of the next scan that agree with
it, and so on. What has been bound so far is a `Row`, and the lookup of a
scan puts the nodes of the row into its pattern.
-/

namespace TripleScript

/-- A row under construction: the node of each slot, as far as it is bound. -/
abbrev Row := List (Option Node)

/-- The row with nothing bound. -/
def Row.empty (slots : Nat) : Row :=
  List.replicate slots none

/-- The node a row has for a slot. -/
def Row.node? (row : Row) (i : Nat) : Option Node :=
  row[i]?.join

/-- The node a position asks for, given a row. -/
def SlotTerm.wanted (row : Row) : SlotTerm → Option Node
  | const n => some n
  | slot i => row.node? i

/-- The lookup of a pattern, given a row. -/
def SlotPattern.lookup (p : SlotPattern) (row : Row) : Lookup :=
  ⟨p.subject.wanted row, p.predicate.wanted row, p.object.wanted row⟩

/-- One scan of a plan. -/
structure ScanStep where
  /-- The pattern scanned for. -/
  pattern : SlotPattern
  /-- The place of the pattern in the statement, from zero. -/
  source : Nat
  /-- How many triples the fixed positions alone accepted when the plan was
  made. -/
  estimate : Nat
deriving DecidableEq, Inhabited, Repr

/-- How a query is answered. -/
structure SelectPlan where
  /-- The scans in the order in which they are joined. -/
  steps : List ScanStep
  /-- How many slots a row has. -/
  slotCount : Nat
  /-- The name of each column. -/
  columns : List String
  /-- The slot of each column. -/
  projection : List Nat
  /-- Whether equal rows are given once. -/
  distinct : Bool
  /-- How many rows are wanted at most. -/
  limit : Option Nat
  /-- How many triples of the first scan are handed on at a time. -/
  capacity : Nat
deriving DecidableEq, Inhabited, Repr

/-- How a command is carried out. -/
inductive Plan where
  /-- By adding triples. -/
  | insert (triples : List Triple)
  /-- By removing triples. -/
  | delete (triples : List Triple)
  /-- By scans. -/
  | select (plan : SelectPlan)
deriving DecidableEq, Inhabited, Repr

end TripleScript
