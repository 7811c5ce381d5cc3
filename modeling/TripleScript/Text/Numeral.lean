/-!
# Decimal numerals

A row count, a channel size and a number in a configuration file are
decimal numerals: one or more ASCII digits, without sign or separator, and
with as many leading zeros as one likes.

`numeral?_isSome_iff` says which texts are numerals.
-/

namespace TripleScript.Text

/-- The value of a digit, read as its distance from the digit zero. -/
def digitValue (c : Char) : Nat :=
  c.toNat - '0'.toNat

/-- The number that a row of digits stands for, after the digits that
`value` stands for. -/
def valueOfDigits (value : Nat) (cs : List Char) : Nat :=
  cs.foldl (fun n c => 10 * n + digitValue c) value

/-- The number a text writes in decimal, if it consists of digits. -/
def numeral? (cs : List Char) : Option Nat :=
  if cs ≠ [] ∧ cs.all Char.isDigit then some (valueOfDigits 0 cs) else none

/-- A text is a numeral when it has a character and only digits. -/
theorem numeral?_isSome_iff {cs : List Char} :
    (numeral? cs).isSome ↔ cs ≠ [] ∧ ∀ c ∈ cs, c.isDigit := by
  simp [numeral?]

/-- One more digit multiplies by ten and adds. -/
theorem valueOfDigits_append_singleton (value : Nat) (cs : List Char) (c : Char) :
    valueOfDigits value (cs ++ [c])
      = 10 * valueOfDigits value cs + digitValue c := by
  simp [valueOfDigits]

end TripleScript.Text
