import TripleScript.Plan.Groups
import TripleScript.Plan.JoinOrder

/-!
# Making plans

A plan is made against a store. A write needs a store that takes writes. A
query needs a capacity that the hand-over of triples can have and patterns of
one group; then the store is asked, pattern by pattern, how many triples the
fixed positions accept, and the scans are put in order by the answers.
-/

namespace TripleScript

/-- The largest number of triples that can be handed on at a time, the
greatest number of 61 bits. -/
def maxCapacity : Nat := 2305843009213693951

/-- Why no plan can be made. -/
inductive PlanError where
  /-- The store of this name takes no writes. -/
  | readOnlyStore (store : String) (verb : Verb)
  /-- The patterns fall into several groups. -/
  | cartesianProduct (groups : Nat)
  /-- More triples at a time than can be handed on. -/
  | channelCapacity (requested max : Nat)
  /-- The store failed. -/
  | store (e : SystemError)
deriving DecidableEq, Repr

/-- The message for the user. -/
def PlanError.message : PlanError → String
  | readOnlyStore name verb =>
    s!"store '{name}' is read-only; cannot plan {verb.keyword}"
  | cartesianProduct groups =>
    s!"patterns form {groups} disconnected groups; cartesian products are not planned"
  | channelCapacity requested max =>
    s!"channel capacity {requested} exceeds the supported maximum of {max}"
  | store e => s!"store error while planning: {e.message}"

/-- The lookup of the fixed positions alone. -/
def SlotPattern.fixed (p : SlotPattern) : Lookup :=
  ⟨p.subject.const?, p.predicate.const?, p.object.const?⟩

/-- The scans for some patterns, of which the first has place `source`, with
the estimates of the store. -/
def estimateScans (source : Nat) :
    List SlotPattern → SessionM SystemError (List ScanStep)
  | [] => return []
  | p :: ps => do
    let estimate ← Session.count p.fixed
    return ⟨p, source, estimate⟩ :: (← estimateScans (source + 1) ps)

/-- The plan for a query that hands on `capacity` triples at a time, or one
if that is none. -/
def Query.plan (capacity : Nat) (q : Query) : SessionM PlanError SelectPlan := do
  let capacity := max capacity 1
  if capacity > maxCapacity then throw (.channelCapacity capacity maxCapacity)
  let groups := groupCount q.patterns q.slots.length
  if groups > 1 then throw (.cartesianProduct groups)
  let scans ← EStateM.adaptExcept .store (estimateScans 0 q.patterns)
  return {
    steps := orderScans scans
    slotCount := q.slots.length
    columns := q.projection.map (q.slots.getD · "")
    projection := q.projection
    distinct := q.distinct
    limit := q.limit
    capacity }

/-- The refusal of a write by a store that takes none. -/
def refuseReadOnly (verb : Verb) : SessionM PlanError Unit := do
  let memory := (← get).store.memory
  if memory.readOnly then throw (.readOnlyStore memory.name verb)

/-- **The plan for a command.** -/
def Command.plan (capacity : Nat) : Command → SessionM PlanError Plan
  | .insert ts => do refuseReadOnly .insert; return .insert ts
  | .delete ts => do refuseReadOnly .delete; return .delete ts
  | .select q => return .select (← q.plan capacity)

end TripleScript
