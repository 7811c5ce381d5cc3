import TripleScript.Plan.Basic

/-!
# The order of the scans

The scans of a query are put in order one by one. First comes the cheapest:
the one with the least estimate. Each next scan is among those that are tied
to what is bound already, either because they share a bound slot or because
they have no slot at all, and it is the one with the fewest open positions.
Equal scans are told apart by the estimate and then by their place in the
statement.

A choice is the least `Rank` among the scans that are eligible, and
`JoinOrder.arrange` repeats it. Should none be eligible, the first scan left
is taken.
-/

namespace TripleScript

/-- What scans are compared by, the first number first. -/
abbrev Rank := Nat × Nat × Nat

/-- Whether a rank comes before another. -/
def Rank.before (a b : Rank) : Bool :=
  a.1 < b.1 || (a.1 == b.1 && (a.2.1 < b.2.1 || (a.2.1 == b.2.1 && a.2.2 < b.2.2)))

namespace ScanStep

/-- The rank of a scan for the first place. -/
def openingRank (s : ScanStep) : Rank :=
  (s.estimate, 3 - s.pattern.constants, s.source)

/-- How many positions of the scan are fixed, by a node or by a bound slot. -/
def boundPositions (bound : List Nat) (s : ScanStep) : Nat :=
  s.pattern.constants + s.pattern.slots.countP bound.contains

/-- The rank of a scan for a later place, given the slots bound so far. -/
def joiningRank (bound : List Nat) (s : ScanStep) : Rank :=
  (3 - s.boundPositions bound, s.estimate, s.source)

/-- Whether a scan is tied to the slots bound so far. -/
def isTied (bound : List Nat) (s : ScanStep) : Bool :=
  s.pattern.constants == 3 || s.pattern.slots.any bound.contains

end ScanStep

namespace JoinOrder

/-- The place of the first eligible scan of least rank, and that rank. -/
def least? (eligible : ScanStep → Bool) (rank : ScanStep → Rank) :
    List ScanStep → Option (Nat × Rank)
  | [] => none
  | s :: rest =>
    match eligible s, least? eligible rank rest with
    | false, none => none
    | false, some (i, r) => some (i + 1, r)
    | true, none => some (0, rank s)
    | true, some (i, r) =>
      if r.before (rank s) then some (i + 1, r) else some (0, rank s)

/-- The place of the next scan; `bound` is nothing before the first scan. -/
def pick? (bound : Option (List Nat)) (pending : List ScanStep) : Option Nat :=
  match bound with
  | none => (least? (fun _ => true) ScanStep.openingRank pending).map (·.1)
  | some slots =>
    (least? (ScanStep.isTied slots) (ScanStep.joiningRank slots) pending).map (·.1)

/-- The slots bound after a scan. -/
def bind (bound : Option (List Nat)) (s : ScanStep) : List Nat :=
  bound.getD [] ++ s.pattern.slots

/-- The scans in order, after those that bound `bound`. -/
def arrange (bound : Option (List Nat)) (pending : List ScanStep) : List ScanStep :=
  let place := (pick? bound pending).getD 0
  match _h : pending[place]? with
  | none => []
  | some s => s :: arrange (some (bind bound s)) (pending.eraseIdx place)
termination_by pending.length
decreasing_by
  obtain ⟨lt, -⟩ := List.getElem?_eq_some_iff.1 _h
  rw [List.length_eraseIdx_of_lt lt]
  omega

end JoinOrder

/-- **The scans in the order in which they are joined.** -/
def orderScans (scans : List ScanStep) : List ScanStep :=
  JoinOrder.arrange none scans

end TripleScript
