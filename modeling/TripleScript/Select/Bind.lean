import TripleScript.Plan.Basic

/-!
# Binding triples to rows

A triple extends a row when every position of the pattern agrees with it: a
fixed node has to be the node of the triple, a bound slot has to have that
node already, and an open slot is bound to it. A slot that occurs twice in a
pattern is open for its first position and bound for its second.
-/

namespace TripleScript

/-- The row with one position bound to a node, if they agree. -/
def SlotTerm.bind (n : Node) (row : Row) : SlotTerm → Option Row
  | const m => if m = n then some row else none
  | slot i =>
    match row.node? i with
    | some m => if m = n then some row else none
    | none => some (row.set i (some n))

/-- **The row with a pattern bound to a triple**, if they agree. -/
def SlotPattern.bind (p : SlotPattern) (t : Triple) (row : Row) : Option Row := do
  let row ← p.subject.bind t.subject row
  let row ← p.predicate.bind t.predicate row
  p.object.bind t.object row

end TripleScript
