import TripleScript.Statement.Basic

/-!
# Compiled statements

A compiled query has its variables and wildcards replaced by **slots**,
numbered from zero: the row under construction has one place per slot, and a
pattern says of each position which node has to stand there or which slot it
fills. A write has its triples spelled out.
-/

namespace TripleScript

/-- One position of a compiled pattern. -/
inductive SlotTerm where
  /-- This node. -/
  | const (n : Node)
  /-- The node of this slot. -/
  | slot (i : Nat)
deriving DecidableEq, Inhabited, Repr

/-- The slot of a position, if it has one. -/
def SlotTerm.slot? : SlotTerm → Option Nat
  | const _ => none
  | slot i => some i

/-- The node of a position, if it is fixed. -/
def SlotTerm.const? : SlotTerm → Option Node
  | const n => some n
  | slot _ => none

/-- A triple pattern over slots. -/
structure SlotPattern where
  /-- The subject. -/
  subject : SlotTerm
  /-- The predicate. -/
  predicate : SlotTerm
  /-- The object. -/
  object : SlotTerm
deriving DecidableEq, Inhabited, Repr

namespace SlotPattern

/-- The three positions in order. -/
def terms (p : SlotPattern) : List SlotTerm :=
  [p.subject, p.predicate, p.object]

/-- The slots of the pattern in order, one for each position that has one. -/
def slots (p : SlotPattern) : List Nat :=
  p.terms.filterMap SlotTerm.slot?

/-- How many positions are fixed. -/
def constants (p : SlotPattern) : Nat :=
  p.terms.countP fun t => t.slot?.isNone

/-- A position is fixed or has a slot. -/
theorem constants_add_length_slots (p : SlotPattern) :
    p.constants + p.slots.length = 3 := by
  obtain ⟨s, p, o⟩ := p
  cases s <;> cases p <;> cases o <;> rfl

end SlotPattern

/-- A compiled query. -/
structure Query where
  /-- The column name of each slot. -/
  slots : List String
  /-- The patterns, in the order of the statement. -/
  patterns : List SlotPattern
  /-- The slots of the columns. -/
  projection : List Nat
  /-- Whether equal rows are given once. -/
  distinct : Bool
  /-- How many rows are wanted at most. -/
  limit : Option Nat
deriving DecidableEq, Inhabited, Repr

/-- A compiled statement. -/
inductive Command where
  /-- Adds these triples. -/
  | insert (triples : List Triple)
  /-- Removes these triples. -/
  | delete (triples : List Triple)
  /-- Asks for rows. -/
  | select (query : Query)
deriving DecidableEq, Inhabited, Repr

/-- What the command does. -/
def Command.verb : Command → Verb
  | insert _ => .insert
  | delete _ => .delete
  | select _ => .select

end TripleScript
