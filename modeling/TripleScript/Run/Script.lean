import TripleScript.Store.Seed
import TripleScript.Plan.Make

/-!
# Scripts

A script has one statement per line; lines that are blank or begin with `#`
are left out. A statement is numbered by its position among the statements
and by its line in the file.

Every statement of a run hands on the same number of triples at a time, its
`ChannelSize`. Zero stands for the size that suits most runs.
-/

namespace TripleScript

open Text

/-- One statement of a script. -/
structure ScriptStatement where
  /-- Its place among the statements, from one. -/
  position : Nat
  /-- The number of its line, from one. -/
  line : Nat
  /-- Its text, without blanks around it. -/
  text : String
deriving DecidableEq, Inhabited, Repr

/-- The statements of a script. -/
structure Script where
  /-- Where they come from. -/
  source : String
  /-- The statements in order. -/
  statements : List ScriptStatement
deriving DecidableEq, Inhabited, Repr

namespace Script

/-- The statements on some lines, numbered from `position`; the first of the
lines is number `line`. -/
def statementsFrom (position line : Nat) : List (List Char) → List ScriptStatement
  | [] => []
  | l :: ls =>
    match lineContent? l with
    | none => statementsFrom position (line + 1) ls
    | some text => ⟨position, line, text⟩ :: statementsFrom (position + 1) (line + 1) ls

/-- **The script that a text writes.** -/
def parse (source text : String) : Script :=
  ⟨source, statementsFrom 1 1 (lines text.toList)⟩

/-- How many statements the script has. -/
def size (s : Script) : Nat :=
  s.statements.length

end Script

/-- How many triples are handed on at a time, or zero for the usual number. -/
structure ChannelSize where
  /-- The number. -/
  value : Nat
deriving DecidableEq, Inhabited, Repr

namespace ChannelSize

/-- The usual number. -/
def usual : Nat := 64

/-- The number of triples handed on at a time; never zero. -/
def capacity (c : ChannelSize) : Nat :=
  if c.value = 0 then usual else c.value

/-- The channel size that a text writes in decimal. -/
def parse? (text : String) : Option ChannelSize :=
  ((numeral? text.toList).filter (· ≤ maxCapacity)).map ChannelSize.mk

/-- The refusal of a text that writes no channel size. -/
def refusal (text : String) : String :=
  s!"channel size must be a non-negative integer no greater than {maxCapacity} (got '{text}')"

end ChannelSize

end TripleScript
