import Mathlib.Data.List.DropRight
import TripleScript.Run.Script

/-!
# Scripts joined at a line end

Two script texts with a line feed between them are one script text, and its
statements are those of the first and, behind them, those of the second, with
later positions and lines (`Script.parse_append`). At the seam nothing is lost
and nothing is new: if the first text does not end with a line end, the line
feed closes its last line, and if it does, the line feed makes one more line,
which is blank. A carriage return at the end of the first text then belongs to
a line end instead of a line; but a line says the same without it
(`lineContent?_dropReturn`), because it is blank.

The text of a statement is itself a script, of this one statement
(`Script.statements_parse_text`).
-/

namespace TripleScript

open Text

/-! ## What a line says -/

/-- A blank at the end is trimmed off. -/
theorem trim_append_singleton {c : Char} (h : isBlank c = true) (cs : List Char) :
    trim (cs ++ [c]) = trim cs := by
  have hright : ∀ ds : List Char, trimRight (ds ++ [c]) = trimRight ds := by
    intro ds
    simp [trimRight, h]
  unfold trim trimLeft
  rw [List.dropWhile_append]
  split
  case isTrue hempty =>
    rw [List.isEmpty_iff.mp hempty]
    simp [h]
  case isFalse => exact hright _

/-- **A line says the same without the carriage return of its line end.** -/
theorem lineContent?_dropReturn (l : List Char) :
    lineContent? (dropReturn l) = lineContent? l := by
  unfold dropReturn
  split
  case isTrue hlast =>
    obtain ⟨front, rfl⟩ := List.getLast?_eq_some_iff.mp hlast
    unfold lineContent?
    rw [List.dropLast_concat, trim_append_singleton (by decide)]
  case isFalse => rfl

/-- Trimming a trimmed text leaves it alone. -/
theorem trim_trim (cs : List Char) : trim (trim cs) = trim cs := by
  have hleft : trimLeft (trim cs) = trim cs := by
    cases h : trim cs with
    | nil => rfl
    | cons c ds =>
      obtain ⟨rest, hrest⟩ : c :: ds <+: trimLeft cs := h ▸ List.rdropWhile_prefix isBlank _
      have hhead := List.head?_dropWhile_not isBlank cs
      rw [← trimLeft, ← hrest] at hhead
      exact List.dropWhile_cons_of_neg (by simpa using hhead)
  rw [trim, hleft]
  exact List.rdropWhile_idempotent isBlank (trimLeft cs)

/-- What is left of a text without its blanks does not end with one. -/
theorem getLast?_trim (cs : List Char) : ∀ c ∈ (trim cs).getLast?, isBlank c = false := by
  intro c hc
  have hne : (trimLeft cs).rdropWhile isBlank ≠ [] := by
    intro hnil
    have htrim : trim cs = [] := hnil
    rw [htrim] at hc
    cases hc
  have hlast := List.rdropWhile_last_not isBlank (trimLeft cs) hne
  obtain rfl := Option.some.inj ((List.getLast?_eq_some_getLast hne).symm.trans hc)
  exact eq_false_of_ne_true hlast

/-- Trimming brings in nothing. -/
theorem mem_of_mem_trim {c : Char} {cs : List Char} (h : c ∈ trim cs) : c ∈ cs :=
  (List.dropWhile_sublist isBlank).subset ((List.rdropWhile_prefix isBlank _).subset h)

/-- What a line says is a line that says the same. -/
theorem lineContent?_of_eq_some {l : List Char} {text : String}
    (h : lineContent? l = some text) :
    text.toList = trim l ∧ text.toList ≠ [] ∧ lineContent? text.toList = some text := by
  have hline := h
  unfold lineContent? at h
  split at h
  case h_1 => cases h
  case h_2 c cs htrim =>
    split at h
    case isTrue => cases h
    case isFalse =>
      cases h
      rw [String.toList_ofList]
      refine ⟨htrim.symm, List.cons_ne_nil _ _, ?_⟩
      rw [← hline, ← htrim]
      unfold lineContent?
      rw [trim_trim]

/-! ## Lines -/

/-- No line has a line feed in it. -/
theorem newline_notMem_of_mem_linesFrom {current cs l : List Char} (hcurrent : '\n' ∉ current)
    (h : l ∈ linesFrom current cs) : '\n' ∉ l := by
  induction cs generalizing current with
  | nil =>
    unfold linesFrom at h
    split at h
    case isTrue => cases h
    case isFalse =>
      rw [List.mem_singleton.mp h, List.mem_reverse]
      exact hcurrent
  | cons c cs ih =>
    unfold linesFrom at h
    split at h
    case isTrue =>
      rcases List.mem_cons.mp h with rfl | h
      · unfold dropReturn
        split
        · exact fun hmem => hcurrent (List.mem_reverse.mp (List.dropLast_subset _ hmem))
        · rwa [List.mem_reverse]
      · exact ih List.not_mem_nil h
    case isFalse hc =>
      refine ih ?_ h
      rw [List.mem_cons, not_or]
      exact ⟨Ne.symm hc, hcurrent⟩

namespace ScriptStatement

/-- The statement so many places and lines further on. -/
def moved (places lines : ℕ) (x : ScriptStatement) : ScriptStatement :=
  { x with position := x.position + places, line := x.line + lines }

@[simp] theorem moved_zero : moved 0 0 = id := rfl

end ScriptStatement

namespace Script

/-- Numbers that begin later are later numbers. -/
theorem statementsFrom_add (position line places lines : ℕ) (ls : List (List Char)) :
    statementsFrom (position + places) (line + lines) ls
      = (statementsFrom position line ls).map (ScriptStatement.moved places lines) := by
  induction ls generalizing position line with
  | nil => rfl
  | cons l ls ih =>
    rw [statementsFrom, statementsFrom, Nat.add_right_comm line]
    cases lineContent? l with
    | none => exact ih position (line + 1)
    | some text =>
      rw [Nat.add_right_comm position]
      exact congrArg _ (ih (position + 1) (line + 1))

/-- **Further lines bring further statements.** -/
theorem statementsFrom_append (position line : ℕ) (ls ls' : List (List Char)) :
    statementsFrom position line (ls ++ ls')
      = statementsFrom position line ls
        ++ statementsFrom (position + (statementsFrom position line ls).length)
          (line + ls.length) ls' := by
  induction ls generalizing position line with
  | nil => rfl
  | cons l ls ih =>
    rw [List.cons_append, statementsFrom, statementsFrom]
    cases lineContent? l with
    | none =>
      dsimp only
      rw [ih position (line + 1), List.length_cons, Nat.add_right_comm, Nat.add_assoc line]
    | some text =>
      dsimp only
      rw [ih (position + 1) (line + 1), List.cons_append, List.length_cons, List.length_cons]
      simp only [Nat.add_assoc, Nat.add_comm 1]

/-- A statement is what one of the lines says. -/
theorem exists_line_of_mem {position line : ℕ} {ls : List (List Char)} {x : ScriptStatement}
    (hx : x ∈ statementsFrom position line ls) : ∃ l ∈ ls, lineContent? l = some x.text := by
  induction ls generalizing position line with
  | nil => cases hx
  | cons l ls ih =>
    have hrest : (∃ l' ∈ ls, lineContent? l' = some x.text) →
        ∃ l' ∈ l :: ls, lineContent? l' = some x.text :=
      fun ⟨l', hl', hcontent⟩ => ⟨l', List.mem_cons_of_mem _ hl', hcontent⟩
    unfold statementsFrom at hx
    split at hx
    case h_1 => exact hrest (ih hx)
    case h_2 text htext =>
      rcases List.mem_cons.mp hx with rfl | hx
      · exact ⟨l, List.mem_cons_self, htext⟩
      · exact hrest (ih hx)

/-- **The lines in front of a seam make the statements of the first text.** -/
theorem exists_lines_append (current cs cs' : List Char) :
    ∃ front, linesFrom current (cs ++ '\n' :: cs') = front ++ lines cs'
      ∧ front.length = cs.count '\n' + 1
      ∧ ∀ position line, statementsFrom position line front
        = statementsFrom position line (linesFrom current cs) := by
  induction cs generalizing current with
  | nil =>
    refine ⟨[dropReturn current.reverse], rfl, rfl, fun position line => ?_⟩
    by_cases hnil : current = []
    · subst hnil
      rfl
    · have hlast : linesFrom current [] = [current.reverse] := if_neg hnil
      rw [hlast, statementsFrom, lineContent?_dropReturn]
      rfl
  | cons c cs ih =>
    rw [List.cons_append, linesFrom, linesFrom, List.count_cons]
    split
    case isTrue hc =>
      obtain ⟨front, hlines, hlength, hstatements⟩ := ih []
      refine ⟨_ :: front, congrArg _ hlines, ?_, fun position line => ?_⟩
      · rw [List.length_cons, hlength, hc]
        rfl
      · rw [statementsFrom, statementsFrom, hstatements]
        simp only [hstatements]
    case isFalse hc =>
      obtain ⟨front, hlines, hlength, hstatements⟩ := ih (c :: current)
      refine ⟨front, hlines, ?_, hstatements⟩
      rw [hlength, beq_false_of_ne hc]
      rfl

/-- **Two script texts joined by a line feed are one**, with the statements of
both: those of the second come so many places later as the first has statements,
and so many lines later as it has line ends, with the new one. -/
theorem parse_append (source a b : String) :
    (parse source (a ++ "\n" ++ b)).statements
      = (parse source a).statements
        ++ (parse source b).statements.map
          (ScriptStatement.moved (parse source a).size (a.toList.count '\n' + 1)) := by
  have htext : (a ++ "\n" ++ b).toList = a.toList ++ '\n' :: b.toList := by
    rw [String.toList_append, String.toList_append, List.append_assoc]
    rfl
  obtain ⟨front, hlines, hlength, hstatements⟩ := exists_lines_append [] a.toList b.toList
  show statementsFrom 1 1 (lines (a ++ "\n" ++ b).toList) = _
  rw [htext, lines, hlines, statementsFrom_append, hstatements, hlength]
  exact congrArg _ (statementsFrom_add 1 1 _ _ _)

/-- **A text that is a statement**: a line of its own, which says all it is. -/
structure IsStatementText (text : String) : Prop where
  /-- It has no line feed in it. -/
  oneLine : '\n' ∉ text.toList
  /-- Nothing of it is left out. -/
  content : lineContent? text.toList = some text

/-- Such a text is a script of one statement. -/
theorem statements_of_isStatementText {text : String} (h : IsStatementText text)
    (source : String) : (parse source text).statements = [⟨1, 1, text⟩] := by
  have hne : text.toList ≠ [] := (lineContent?_of_eq_some h.content).2.1
  show statementsFrom 1 1 (lines text.toList) = _
  rw [lines_eq_singleton h.oneLine hne, statementsFrom, h.content]
  rfl

/-- The texts of statements are such. -/
theorem isStatementText_of_mem {source text : String} {x : ScriptStatement}
    (hx : x ∈ (parse source text).statements) : IsStatementText x.text := by
  obtain ⟨l, hl, hcontent⟩ := exists_line_of_mem hx
  obtain ⟨htrim, -, htext⟩ := lineContent?_of_eq_some hcontent
  refine ⟨?_, htext⟩
  rw [htrim]
  exact fun hmem => newline_notMem_of_mem_linesFrom List.not_mem_nil hl (mem_of_mem_trim hmem)

/-- **The text of a statement is a script of this statement.** -/
theorem statements_parse_text {source text : String} {x : ScriptStatement}
    (hx : x ∈ (parse source text).statements) (source' : String) :
    (parse source' x.text).statements = [⟨1, 1, x.text⟩] :=
  statements_of_isStatementText (isStatementText_of_mem hx) source'

end Script

end TripleScript
