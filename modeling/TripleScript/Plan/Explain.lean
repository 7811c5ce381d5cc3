import TripleScript.Plan.Basic
import TripleScript.Text.Bytes
import TripleScript.Text.XxHash

/-!
# Explaining plans

A plan is explained by the operators it consists of, the last one first, each
on a line of its own and indented by two blanks more than the one above. An
operator has a name and properties with a key and a value. Fixed positions of
a pattern are written as nodes and slots as `$0`, `$1`, ….

Plans with the same explanation have the same fingerprint.
-/

namespace TripleScript

/-- An operator of a plan. -/
structure Operator where
  /-- What it does. -/
  name : String
  /-- Its properties, in order. -/
  properties : List (String × String) := []
deriving DecidableEq, Inhabited, Repr

/-- The line of an operator under `depth` others. -/
def Operator.line (depth : Nat) (op : Operator) : String :=
  let indent := String.ofList (List.replicate (2 * depth) ' ')
  let properties := String.join (op.properties.map fun (key, value) => s!" {key}={value}")
  s!"{indent}{op.name}{properties}\n"

/-- The position as explanations write it. -/
def SlotTerm.explained : SlotTerm → String
  | const n => n.written
  | slot i => s!"${i}"

/-- The pattern as explanations write it. -/
def SlotPattern.explained (p : SlotPattern) : String :=
  s!"({p.subject.explained}, {p.predicate.explained}, {p.object.explained})"

/-- The operator of a scan; the first scan hands its triples on. -/
def ScanStep.operator (capacity : Option Nat) (s : ScanStep) : Operator where
  name := if capacity.isSome then "Scan" else "IndexJoin"
  properties := [("pattern", s.pattern.explained), ("est", toString s.estimate)]
    ++ capacity.toList.map fun n => ("channel", toString n)

/-- The operators of the scans, the last one first. -/
def SelectPlan.scanOperators (p : SelectPlan) : List Operator :=
  match p.steps with
  | [] => []
  | first :: rest =>
    (rest.map (ScanStep.operator none)).reverse ++ [first.operator (some p.capacity)]

/-- The operators of a query, the last one first. -/
def SelectPlan.operators (store : String) (p : SelectPlan) : List Operator :=
  [⟨"Project", [("columns", ",".intercalate p.columns), ("store", store)]⟩]
    ++ p.limit.toList.map (fun n => ⟨"Limit", [("rows", toString n)]⟩)
    ++ (if p.distinct then [⟨"Distinct", []⟩] else [])
    ++ p.scanOperators

/-- The operators of a plan against the store of this name. -/
def Plan.operators (store : String) : Plan → List Operator
  | insert ts => [⟨"Insert", [("store", store), ("triples", toString ts.length)]⟩]
  | delete ts => [⟨"Delete", [("store", store), ("triples", toString ts.length)]⟩]
  | select p => p.operators store

/-- **The explanation of a plan.** -/
def Plan.explain (store : String) (p : Plan) : String :=
  String.join ((p.operators store).zipIdx.map fun (op, depth) => op.line depth)

/-- The fingerprint of a plan: the checksum of its explanation. -/
def Plan.fingerprint (store : String) (p : Plan) : UInt64 :=
  Text.XxHash.hash (Text.bytesOf (p.explain store))

end TripleScript
