/-!
# Blank characters

Statements, scripts and seed files are laid out with blanks, and a blank is
any character with the Unicode property `White_Space`. The property has
twenty-five characters in ten ranges; `isBlank` is the table, and `trim`
takes blanks off both ends of a text.

`isBlank_of_isWhitespace` says the table contains the blanks of ASCII, and
`trim_eq_self` that a text which begins and ends with other characters is
left alone.
-/

namespace TripleScript.Text

/-- The ranges of the Unicode property `White_Space`, both ends included. -/
def blankRanges : List (Nat × Nat) :=
  [(0x9, 0xd), (0x20, 0x20), (0x85, 0x85), (0xa0, 0xa0), (0x1680, 0x1680),
    (0x2000, 0x200a), (0x2028, 0x2029), (0x202f, 0x202f), (0x205f, 0x205f),
    (0x3000, 0x3000)]

/-- Whether a character separates tokens without being one. -/
def isBlank (c : Char) : Bool :=
  blankRanges.any fun (first, last) => first ≤ c.toNat && c.toNat ≤ last

/-- The blanks of ASCII are blanks. -/
theorem isBlank_of_isWhitespace {c : Char} (h : c.isWhitespace = true) :
    isBlank c = true := by
  simp only [Char.isWhitespace, Bool.or_eq_true, decide_eq_true_eq] at h
  rcases h with ((rfl | rfl) | rfl) | rfl <;> rfl

/-- A text without the blanks at its beginning. -/
def trimLeft (cs : List Char) : List Char :=
  cs.dropWhile isBlank

/-- A text without the blanks at its end. -/
def trimRight (cs : List Char) : List Char :=
  (cs.reverse.dropWhile isBlank).reverse

/-- A text without the blanks at its two ends. -/
def trim (cs : List Char) : List Char :=
  trimRight (trimLeft cs)

/-- **Trimming leaves a tight text alone**: one whose first and last
characters are not blank. -/
theorem trim_eq_self {cs : List Char}
    (first : ∀ c ∈ cs.head?, isBlank c = false)
    (last : ∀ c ∈ cs.getLast?, isBlank c = false) : trim cs = cs := by
  have left : trimLeft cs = cs := by
    cases cs with
    | nil => rfl
    | cons c cs => simp [trimLeft, List.dropWhile, first c (by simp)]
  have right : cs.reverse.dropWhile isBlank = cs.reverse := by
    cases h : cs.reverse with
    | nil => rfl
    | cons c rest =>
      have : isBlank c = false := last c (by
        rw [← List.head?_reverse, h]; rfl)
      simp [this]
  rw [trim, left, trimRight, right, List.reverse_reverse]

end TripleScript.Text
