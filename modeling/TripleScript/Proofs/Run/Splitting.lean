import Mathlib.Data.List.Zip
import TripleScript.Proofs.Run.Joining
import TripleScript.Proofs.Run.Trace

/-!
# Statements and their lines

A script text has physical lines, which are what stands between its line feeds,
each without the carriage return in front of the line feed that ends it
(`physicalLines`). A line makes a statement if something is left of it without
the blanks at its ends and that does not begin with a `#` (`MakesStatement`).
Two things are counted: lines, whether they make a statement or not, and
statements. `script_keeps_statements` says what comes of either.

The reader of lines sees no line behind the last line feed, which makes no
difference since that line is empty (`physicalLines_eq`). The number of a line
can be read off the text without taking lines apart: it is the number of line
feeds in front of it, and one (`ScriptStatement.StandsIn`), which is an invariant
of the reader. And a text made of statements, one on each line, is read as a
series of scripts joined at line feeds.
-/

namespace TripleScript

open Text

/-! ## Physical lines -/

/-- **The physical lines of a text**: what stands between its line feeds, and what
is behind the last one. A carriage return in front of a line feed belongs to the
line end. -/
def physicalLines (cs : List Char) : List (List Char) :=
  (cs.splitOn '\n').dropLast.map dropReturn ++ (cs.splitOn '\n').getLast?.toList

/-- **A line that makes a statement**: it is neither blank nor a comment. -/
def MakesStatement (l : List Char) : Prop := trim l ≠ [] ∧ (trim l).head? ≠ some '#'

instance : DecidablePred MakesStatement := fun _ => inferInstanceAs (Decidable (_ ∧ _))

/-- What a line says is said by the lines that make a statement. -/
theorem lineContent?_eq_ite (l : List Char) :
    lineContent? l = if MakesStatement l then some (String.ofList (trim l)) else none := by
  unfold lineContent?
  cases htrim : trim l with
  | nil => exact (if_neg fun h => h.1 htrim).symm
  | cons c cs =>
    by_cases hc : c = '#'
    · subst hc
      exact (if_pos rfl).trans (if_neg fun h => h.2 (by rw [htrim]; rfl)).symm
    · have hmakes : MakesStatement l := by
        rw [MakesStatement, htrim]
        exact ⟨List.cons_ne_nil c cs, fun h => hc (Option.some.inj h)⟩
      exact (if_neg hc).trans (if_pos hmakes).symm

/-- **The lines that are read are the physical lines**, but for an empty one behind
the last line feed. -/
theorem physicalLines_eq {current : List Char} (hcurrent : '\n' ∉ current) (cs : List Char) :
    ∃ rest, (rest = [] ∨ rest = [[]])
      ∧ physicalLines (current.reverse ++ cs) = linesFrom current cs ++ rest := by
  induction cs generalizing current with
  | nil =>
    have hpieces : (current.reverse ++ []).splitOn '\n' = [current.reverse] := by
      rw [List.append_nil, List.splitOn_eq_singleton (mt List.mem_reverse.mp hcurrent)]
    unfold physicalLines
    rw [hpieces, linesFrom]
    split
    · next hnil =>
      subst hnil
      exact ⟨[[]], Or.inr rfl, rfl⟩
    · exact ⟨[], Or.inl rfl, rfl⟩
  | cons c cs ih =>
    rw [linesFrom]
    split
    · next hc =>
      subst hc
      obtain ⟨rest, hrest, hlines⟩ := ih List.not_mem_nil
      refine ⟨rest, hrest, ?_⟩
      rw [List.cons_append, ← hlines]
      unfold physicalLines
      have hne : cs.splitOn '\n' ≠ [] := List.splitOn_ne_nil _ _
      rw [List.splitOn_append_cons_self,
        List.splitOn_eq_singleton (mt List.mem_reverse.mp hcurrent), List.singleton_append,
        List.dropLast_cons_of_ne_nil hne, List.getLast?_cons_of_ne_nil hne]
      rfl
    · next hc =>
      have hnext : '\n' ∉ c :: current := by
        rw [List.mem_cons, not_or]
        exact ⟨Ne.symm hc, hcurrent⟩
      have hmoved : current.reverse ++ c :: cs = (c :: current).reverse ++ cs := by simp
      rw [hmoved]
      exact ih hnext

namespace Script

/-- **Each line that makes a statement makes one**, with its number and its text,
and the others make none. -/
theorem map_statementsFrom (position number : ℕ) (ls : List (List Char)) :
    (statementsFrom position number ls).map (fun x => (x.line, x.text))
      = ((ls.zipIdx number).filter fun x => MakesStatement x.1).map
        fun x => (x.2, String.ofList (trim x.1)) := by
  induction ls generalizing position number with
  | nil => rfl
  | cons l ls ih =>
    rw [statementsFrom, lineContent?_eq_ite, List.zipIdx_cons]
    by_cases h : MakesStatement l
    · rw [if_pos h, List.filter_cons_of_pos (by simpa using h), List.map_cons, List.map_cons, ih]
    · rw [if_neg h, List.filter_cons_of_neg (by simpa using h), ih]

/-- The statements of a text are those of its physical lines. -/
theorem statements_eq (source text : String) :
    (parse source text).statements = statementsFrom 1 1 (physicalLines text.toList) := by
  obtain ⟨rest, hrest, hlines⟩ := physicalLines_eq List.not_mem_nil text.toList
  rw [List.reverse_nil, List.nil_append] at hlines
  rw [hlines, statementsFrom_append]
  rcases hrest with rfl | rfl
  · exact (List.append_nil _).symm
  · exact (List.append_nil _).symm

end Script

/-! ## Where statements stand -/

/-- **The statement stands in a text**: on a line of its own, with nothing but
blanks around it there, and the number of the line is the number of line feeds in
front of it, and one. -/
def ScriptStatement.StandsIn (x : ScriptStatement) (text : List Char) : Prop :=
  ∃ front gap gap' back, text = front ++ (gap ++ (x.text.toList ++ (gap' ++ back)))
    ∧ (∀ c ∈ gap ++ gap', isBlank c = true ∧ c ≠ '\n') ∧ '\n' ∉ x.text.toList
    ∧ (∀ c ∈ front.getLast?, c = '\n') ∧ (∀ c ∈ back.head?, c = '\n')
    ∧ x.line = (front ++ gap).count '\n' + 1

/-- Blanks stand around what is left of a text without them. -/
theorem exists_eq_trim (cs : List Char) :
    ∃ gap gap', cs = gap ++ (trim cs ++ gap') ∧ ∀ c ∈ gap ++ gap', isBlank c = true := by
  refine ⟨cs.takeWhile isBlank, ((trimLeft cs).reverse.takeWhile isBlank).reverse, ?_, ?_⟩
  · have hright : trim cs ++ ((trimLeft cs).reverse.takeWhile isBlank).reverse = trimLeft cs := by
      rw [trim, trimRight, ← List.reverse_append, List.takeWhile_append_dropWhile,
        List.reverse_reverse]
    rw [hright]
    exact List.takeWhile_append_dropWhile.symm
  · intro c hc
    rcases List.mem_append.mp hc with hc | hc
    · exact List.mem_takeWhile_imp hc
    · exact List.mem_takeWhile_imp (List.mem_reverse.mp hc)

section StandsIn

variable {text front current cs back : List Char} {position line : ℕ} {x : ScriptStatement}

/-- What a line says stands on it. -/
theorem ScriptStatement.standsIn_of_line (htext : text = front ++ (current ++ back))
    (hcurrent : '\n' ∉ current) (hfront : ∀ c ∈ front.getLast?, c = '\n')
    (hback : ∀ c ∈ back.head?, c = '\n') (hx : lineContent? current = some x.text)
    (hline : x.line = front.count '\n' + 1) : x.StandsIn text := by
  obtain ⟨gap, gap', heq, hblank⟩ := exists_eq_trim current
  have hcontent := (lineContent?_of_eq_some hx).1
  rw [heq] at hcurrent
  simp only [List.mem_append, not_or] at hcurrent
  obtain ⟨hgap, hsaid, hgap'⟩ := hcurrent
  refine ⟨front, gap, gap', back, ?_, fun c hc => ⟨hblank c hc, ?_⟩, by rwa [hcontent], hfront,
    hback, ?_⟩
  · rw [htext, hcontent]
    nth_rewrite 1 [heq]
    simp only [List.append_assoc]
  · rintro rfl
    exact (List.mem_append.mp hc).elim hgap hgap'
  · rw [hline, List.count_append, List.count_eq_zero_of_not_mem hgap, Nat.add_zero]

/-- **The reader of lines counts line feeds.** -/
theorem Script.standsIn_of_mem (htext : text = front ++ (current.reverse ++ cs))
    (hcurrent : '\n' ∉ current) (hfront : ∀ c ∈ front.getLast?, c = '\n')
    (hline : line = front.count '\n' + 1)
    (hx : x ∈ statementsFrom position line (linesFrom current cs)) : x.StandsIn text := by
  induction cs generalizing front current position line with
  | nil =>
    rw [linesFrom] at hx
    split at hx
    · cases hx
    · rw [statementsFrom] at hx
      split at hx
      · cases hx
      · next said hsaid =>
        obtain rfl := List.mem_singleton.mp hx
        exact ScriptStatement.standsIn_of_line htext (mt List.mem_reverse.mp hcurrent) hfront
          (by rintro _ ⟨⟩) hsaid hline
  | cons c cs ih =>
    rw [linesFrom] at hx
    split at hx
    · next hc =>
      subst hc
      -- the line feed closes the line, and the next one begins behind it
      have hrest : ∀ p, x ∈ statementsFrom p (line + 1) (linesFrom [] cs) → x.StandsIn text := by
        intro p hx
        have hclosed : text = front ++ (current.reverse ++ ['\n']) ++ ([].reverse ++ cs) := by
          simpa using htext
        refine ih hclosed List.not_mem_nil ?_ ?_ hx
        · intro c hc
          rw [← List.append_assoc, List.getLast?_concat] at hc
          exact (Option.some.inj hc).symm
        · rw [hline, List.count_append, List.count_append,
            List.count_eq_zero_of_not_mem (mt List.mem_reverse.mp hcurrent)]
          rfl
      rw [statementsFrom, lineContent?_dropReturn] at hx
      split at hx
      · exact hrest _ hx
      · next said hsaid =>
        rcases List.mem_cons.mp hx with rfl | hx
        · exact ScriptStatement.standsIn_of_line htext (mt List.mem_reverse.mp hcurrent) hfront
            (by rintro _ ⟨⟩; rfl) hsaid hline
        · exact hrest _ hx
    · next hc =>
      have hlonger : text = front ++ ((c :: current).reverse ++ cs) := by simpa using htext
      refine ih hlonger ?_ hfront hline hx
      rw [List.mem_cons, not_or]
      exact ⟨Ne.symm hc, hcurrent⟩

end StandsIn

/-! ## One statement on each line -/

namespace Script

/-- **Statements on lines of their own** are numbered by their lines. -/
theorem statements_intercalate {texts : List String} (h : ∀ t ∈ texts, IsStatementText t)
    (source : String) :
    (parse source ("\n".intercalate texts)).statements
      = (texts.zipIdx 1).map fun x => ⟨x.2, x.2, x.1⟩ := by
  induction texts with
  | nil => rfl
  | cons t ts ih =>
    obtain ⟨ht, hts⟩ := List.forall_mem_cons.mp h
    have hfirst := statements_of_isStatementText ht source
    cases ts with
    | nil =>
      rw [String.intercalate_singleton]
      exact hfirst
    | cons u ts =>
      have hnumbers : (t :: u :: ts).zipIdx 1
          = (t, 1) :: ((u :: ts).zipIdx 1).map fun x => (x.1, x.2 + 1) := by
        rw [List.zipIdx_cons, List.zipIdx_succ]
      rw [String.intercalate_cons_cons, parse_append, ih hts, hfirst, size, hfirst,
        List.count_eq_zero_of_not_mem ht.oneLine, hnumbers, List.map_map, List.map_cons,
        List.map_map]
      rfl

end Script

/-- **A script keeps its statements and their places.** Each physical line of a
text that is neither blank nor a comment makes one statement, in order, with the
number of the line and what is left of the line without the blanks at its ends;
other lines make none. Statements are numbered from one. The numbers of their
lines increase, and each is the number of line feeds in front of the statement,
and one. And the texts of the statements, one on each line, are a script of the
same statements, which is numbered in the same way. -/
theorem script_keeps_statements (source text : String) :
    let xs := (Script.parse source text).statements
    xs.map (fun x => (x.line, x.text))
        = (((physicalLines text.toList).zipIdx 1).filter fun l => MakesStatement l.1).map
          (fun l => (l.2, String.ofList (trim l.1)))
      ∧ xs.map ScriptStatement.position = List.range' 1 xs.length
      ∧ xs.Pairwise (fun x y => x.line < y.line)
      ∧ (∀ x ∈ xs, x.StandsIn text.toList)
      ∧ (Script.parse source ("\n".intercalate (xs.map ScriptStatement.text))).statements.map
          (fun x => (x.position, x.text))
        = xs.map fun x => (x.position, x.text) := by
  intro xs
  have hlines : xs.map (fun x => (x.line, x.text))
      = (((physicalLines text.toList).zipIdx 1).filter fun l => MakesStatement l.1).map
        (fun l => (l.2, String.ofList (trim l.1))) := by
    rw [← Script.map_statementsFrom 1, ← Script.statements_eq source]
  have hpositions : xs.map ScriptStatement.position = List.range' 1 xs.length :=
    Script.positions_statementsFrom 1 1 _
  refine ⟨hlines, hpositions, ?_, fun x hx => ?_, ?_⟩
  · -- the numbers of some lines are some of the numbers of all lines
    have hnumbers : (xs.map ScriptStatement.line).Sublist
        (List.range' 1 (physicalLines text.toList).length) := by
      have hfst := congrArg (List.map Prod.fst) hlines
      rw [List.map_map, List.map_map] at hfst
      rw [← List.zipIdx_map_snd 1 (physicalLines text.toList)]
      exact hfst ▸ List.filter_sublist.map Prod.snd
    exact List.pairwise_map.mp (.sublist hnumbers List.pairwise_lt_range')
  · have hcs : text.toList = [] ++ ([].reverse ++ text.toList) := rfl
    exact Script.standsIn_of_mem hcs List.not_mem_nil nofun rfl hx
  · have htexts : ∀ t ∈ xs.map ScriptStatement.text, Script.IsStatementText t := by
      intro t ht
      obtain ⟨x, hx, rfl⟩ := List.mem_map.mp ht
      exact Script.isStatementText_of_mem hx
    calc _ = ((xs.map ScriptStatement.text).zipIdx 1).map Prod.swap := by
          rw [Script.statements_intercalate htexts, List.map_map]
          rfl
      _ = (List.range' 1 xs.length).zip (xs.map ScriptStatement.text) := by
          rw [List.zipIdx_eq_zip_range', List.zip_swap, List.length_map]
      _ = xs.map fun x => (x.position, x.text) := by
          rw [← hpositions, List.zip_map']

/-- A text with a comment behind a blank, a blank line, carriage returns – one of
them at the end, where no line feed follows – and a statement with a `#` in it. -/
theorem script_keeps_statements_between_comments :
    let text := "\u00a0# é\r\n \r\n\tINSERT (a, #b, c)\r\n\nnonsense \u2003\r"
    let xs : List ScriptStatement := [⟨1, 3, "INSERT (a, #b, c)"⟩, ⟨2, 5, "nonsense"⟩]
    (Script.parse "s" text).statements = xs
      ∧ (∀ x ∈ xs, x.StandsIn text.toList)
      ∧ (Script.parse "s" "INSERT (a, #b, c)\nnonsense").statements.map
          (fun x => (x.position, x.text))
        = [(1, "INSERT (a, #b, c)"), (2, "nonsense")] := by
  intro text xs
  have hxs : (Script.parse "s" text).statements = xs := by decide +kernel
  obtain ⟨-, -, -, hstand, hagain⟩ := script_keeps_statements "s" text
  rw [hxs] at hstand hagain
  have hjoined : "\n".intercalate (xs.map ScriptStatement.text)
      = "INSERT (a, #b, c)\nnonsense" := by decide +kernel
  rw [hjoined] at hagain
  exact ⟨hxs, hstand, hagain⟩

end TripleScript
