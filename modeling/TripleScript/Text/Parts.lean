/-!
# Parts between separators

A list in one text is written with a separator between its parts: log filters
have commas between directives and paths have slashes between names. There is
always one part more than there are separators, so parts may be empty.

`parts_append_cons` says that a part and a separator in front of a text make
one more part, and `parts_eq_singleton` what the last part is.
-/

namespace TripleScript.Text

/-- The parts of a text between separators. -/
def parts (separator : Char) : List Char → List (List Char)
  | [] => [[]]
  | c :: cs =>
    if c = separator then [] :: parts separator cs
    else
      match parts separator cs with
      | [] => [[c]]
      | part :: rest => (c :: part) :: rest

/-- A text without separators is one part. -/
theorem parts_eq_singleton {separator : Char} {part : List Char}
    (free : separator ∉ part) : parts separator part = [part] := by
  induction part with
  | nil => rfl
  | cons c part ih =>
    rw [List.mem_cons, not_or] at free
    rw [parts, if_neg (Ne.symm free.1), ih free.2]

/-- **A part and a separator in front of a text** make one more part. -/
theorem parts_append_cons {separator : Char} {part : List Char}
    (free : separator ∉ part) (cs : List Char) :
    parts separator (part ++ separator :: cs) = part :: parts separator cs := by
  induction part with
  | nil => rw [List.nil_append, parts, if_pos rfl]
  | cons c part ih =>
    rw [List.mem_cons, not_or] at free
    rw [List.cons_append, parts, if_neg (Ne.symm free.1), ih free.2]

end TripleScript.Text
