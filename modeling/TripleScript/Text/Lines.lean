/-!
# Physical lines

Scripts and seed files are read line by line. A line ends at a line feed,
and a carriage return right before that line feed belongs to the line end.
The end of the text ends the last line, if anything is left of it; a
carriage return there has no line feed after it and stays in the line.

`lines_append_newline` says that a closed line in front of a text is the
first of its lines and changes nothing in the others, and
`lines_eq_singleton` what the last line is.
-/

namespace TripleScript.Text

/-- A line without the carriage return of its line end. -/
def dropReturn (line : List Char) : List Char :=
  if line.getLast? = some '\r' then line.dropLast else line

/-- The lines of a text of which `current` has been read, last character
first, since the latest line end. -/
def linesFrom (current : List Char) : List Char → List (List Char)
  | [] => if current = [] then [] else [current.reverse]
  | c :: cs =>
    if c = '\n' then dropReturn current.reverse :: linesFrom [] cs
    else linesFrom (c :: current) cs

/-- The physical lines of a text, in order, without their line ends. -/
def lines (cs : List Char) : List (List Char) :=
  linesFrom [] cs

/-- The empty text has no lines. -/
@[simp] theorem lines_nil : lines [] = [] := rfl

/-- Characters other than the line feed join the current line. -/
theorem linesFrom_append {line : List Char} (free : '\n' ∉ line)
    (current rest : List Char) :
    linesFrom current (line ++ rest)
      = linesFrom (line.reverse ++ current) rest := by
  induction line generalizing current with
  | nil => rfl
  | cons c line ih =>
    rw [List.mem_cons, not_or] at free
    rw [List.cons_append, linesFrom, if_neg (Ne.symm free.1), ih free.2]
    simp

/-- **A closed line in front of a text is its first line.** -/
theorem lines_append_newline {line : List Char} (free : '\n' ∉ line)
    (rest : List Char) :
    lines (line ++ '\n' :: rest) = dropReturn line :: lines rest := by
  rw [lines, linesFrom_append free, linesFrom, if_pos rfl]
  simp [lines]

/-- A text without a line feed is one line, unless it is empty. -/
theorem lines_eq_singleton {line : List Char} (free : '\n' ∉ line)
    (filled : line ≠ []) : lines line = [line] := by
  have h := linesFrom_append free [] []
  rw [List.append_nil, List.append_nil] at h
  rw [lines, h, linesFrom, if_neg (by simpa using filled),
    List.reverse_reverse]

end TripleScript.Text
