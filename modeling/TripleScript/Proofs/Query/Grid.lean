import Mathlib.Algebra.GroupWithZero.Nat
import Mathlib.Data.List.DropRight
import Mathlib.Order.Bounds.Basic
import TripleScript.Proofs.Plan.Explain
import TripleScript.Table

/-!
# A grid shows its table

A table is drawn as a grid for people, but nothing of it is lost. The cells may
have anything in them, bars, rules and line feeds too, so a grid cannot be read
by looking for its borders. It is read from the left instead. The first rule is
written before any cell, and the stretches of it are the widths of the columns
(`rule_append_inj`). They say where each cell of a line begins and where it is
filled up to, whatever is in it, and the blanks it is filled up with are told
from its own because no cell ends with a blank (`FitsIn.fill_inj`, `line_append_inj`).
What begins with a bar is then one more line, and what does not is the last rule
(`lines_append_inj`).

A cell has as many characters as its column is wide once it is filled up, since
the width of a column is the length of the longest of its cells
(`isGreatest_widths`). So all lines are of one length (`length_rule`,
`length_line`), and a column is at the same place on each of them
(`DrawsColumn`).
-/

namespace TripleScript

/-- Nodes that are written alike are the same. -/
theorem Node.written_injective : Function.Injective Node.written := by
  intro n n' h
  have hends : EndsWords [] := nofun
  exact (Node.written_append_inj hends hends (congrArg (·.toList ++ []) h)).1

/-- What is written for a node does not end with a blank: it is a word or ends with
a quote. -/
theorem Node.blank_notMem_getLast?_written (n : Node) : ' ' ∉ n.written.toList.getLast? := by
  intro h
  unfold written at h
  split at h
  · next hbare =>
    obtain ⟨-, hall⟩ := Bool.and_eq_true_iff.mp hbare
    exact absurd (List.all_eq_true.mp hall ' ' (List.mem_of_getLast? h)) (by decide)
  · rw [String.toList_ofList, List.getLast?_concat] at h
    cases h

namespace Table

/-- **A table that is to be drawn**: it has a cell for each column in each row, and
its columns have names as the columns of queries do. -/
structure Proper (t : Table) : Prop where
  /-- Each row is as long as there are columns. -/
  rectangular : ∀ row ∈ t.rows, row.length = t.columns.length
  /-- The names are question marks with bare characters behind. -/
  names : ∀ name ∈ t.columns, IsColumnName name

/-! ## Widths -/

/-- **The lengths of what a column shows**, its name included. -/
def lengthsIn (t : Table) (i : ℕ) : Set ℕ :=
  {n | ∃ cells ∈ t.columns :: t.cells, ∃ c ∈ cells[i]?, c.length = n}

theorem length_widen (ws : List ℕ) (cells : List String) :
    (widen ws cells).length = ws.length := by
  induction ws generalizing cells with
  | nil => rfl
  | cons w ws ih =>
    cases cells with
    | nil => rfl
    | cons c cells => exact congrArg (· + 1) (ih cells)

/-- A row widens each column to its cell, if it has one. -/
theorem getElem?_widen (ws : List ℕ) (cells : List String) (i : ℕ) :
    (widen ws cells)[i]? = ws[i]?.map fun w => max w ((cells[i]?.map String.length).getD 0) := by
  induction ws generalizing cells i with
  | nil => rfl
  | cons w ws ih =>
    cases cells with
    | nil =>
      show (w :: ws)[i]? = (w :: ws)[i]?.map fun w => max w 0
      simp
    | cons c cells =>
      cases i with
      | zero => rfl
      | succ i => exact ih cells i

/-- Rows widen a column to the longest of their cells in it, if that is longer than
it is wide. -/
theorem isGreatest_foldl_widen {rows : List (List String)} {ws : List ℕ} {i w₀ w : ℕ}
    (h₀ : ws[i]? = some w₀) (h : (rows.foldl widen ws)[i]? = some w) :
    IsGreatest {n | n = w₀ ∨ ∃ cells ∈ rows, ∃ c ∈ cells[i]?, c.length = n} w := by
  induction rows generalizing ws w₀ with
  | nil =>
    obtain rfl := Option.some.inj (h₀.symm.trans h)
    refine ⟨Or.inl rfl, ?_⟩
    rintro n (rfl | ⟨_, ⟨⟩, _⟩)
    exact le_rfl
  | cons cells rows ih =>
    have h₁ : (widen ws cells)[i]? = some (max w₀ ((cells[i]?.map String.length).getD 0)) := by
      rw [getElem?_widen, h₀]
      rfl
    obtain ⟨hmem, hbound⟩ := ih h₁ h
    have hw := hbound (Or.inl rfl)
    constructor
    · rcases hmem with rfl | ⟨cells', hcells', hc⟩
      · cases hcell : cells[i]? with
        | none => exact Or.inl (max_eq_left (Nat.zero_le w₀))
        | some c =>
          rcases max_choice w₀ c.length with hmax | hmax
          · exact Or.inl hmax
          · exact Or.inr ⟨cells, List.mem_cons_self, c, hcell, hmax.symm⟩
      · exact Or.inr ⟨cells', List.mem_cons_of_mem _ hcells', hc⟩
    · rintro n (rfl | ⟨cells', hcells', c, hc, rfl⟩)
      · exact (le_max_left n _).trans hw
      · rcases List.mem_cons.mp hcells' with rfl | hcells'
        · rw [Option.mem_def.mp hc] at hw
          exact (le_max_right w₀ c.length).trans hw
        · exact hbound (Or.inr ⟨cells', hcells', c, hc, rfl⟩)

variable {t : Table}

theorem length_widths (t : Table) : t.widths.length = t.columns.length := by
  have hfoldl : ∀ (rows : List (List String)) (ws : List ℕ),
      (rows.foldl widen ws).length = ws.length := by
    intro rows
    induction rows with
    | nil => exact fun _ => rfl
    | cons cells rows ih => exact fun ws => (ih _).trans (length_widen ws cells)
  rw [widths, hfoldl, List.length_map]

/-- **A column is as wide as the longest of its cells**, its name included. -/
theorem isGreatest_widths {i w : ℕ} (h : t.widths[i]? = some w) :
    IsGreatest (t.lengthsIn i) w := by
  have hi : i < t.columns.length := by
    rw [← length_widths]
    exact (List.getElem?_eq_some_iff.mp h).1
  have hname : t.columns[i]? = some t.columns[i] := List.getElem?_eq_getElem hi
  have h₀ : (t.columns.map String.length)[i]? = some t.columns[i].length := by
    rw [List.getElem?_map, hname]
    rfl
  have hset : t.lengthsIn i
      = {n | n = t.columns[i].length ∨ ∃ cells ∈ t.cells, ∃ c ∈ cells[i]?, c.length = n} := by
    ext n
    show (∃ cells ∈ t.columns :: t.cells, ∃ c ∈ cells[i]?, c.length = n) ↔ _ ∨ _
    rw [List.exists_mem_cons_iff, hname]
    refine or_congr_left ⟨?_, fun hn => ⟨_, rfl, hn.symm⟩⟩
    rintro ⟨_, ⟨⟩, rfl⟩
    rfl
  rw [hset]
  exact isGreatest_foldl_widen h₀ h

/-- **A cell that can be told from a column of this width**: it fits, and the blanks
it is filled up with are no part of it. -/
structure FitsIn (c : String) (w : ℕ) : Prop where
  /-- It is not longer than the column is wide. -/
  length_le : c.length ≤ w
  /-- It does not end with a blank. -/
  ends : ' ' ∉ c.toList.getLast?

/-- No cell of a table ends with a blank, and no name does. -/
theorem Proper.blank_notMem_getLast? (h : t.Proper) :
    ∀ cells ∈ t.columns :: t.cells, ∀ c ∈ cells, ' ' ∉ c.toList.getLast? := by
  intro cells hcells c hc hblank
  rcases List.mem_cons.mp hcells with rfl | hcells
  · exact (h.names c hc).notMem (by decide) (by decide) (List.mem_of_getLast? hblank)
  · obtain ⟨row, -, rfl⟩ := List.mem_map.mp hcells
    obtain ⟨n, -, rfl⟩ := List.mem_map.mp hc
    exact n.blank_notMem_getLast?_written hblank

/-- **The cells of a row fit into their columns**, and so do the names. -/
theorem Proper.fitsIn (h : t.Proper) :
    ∀ cells ∈ t.columns :: t.cells, List.Forall₂ FitsIn cells t.widths := by
  intro cells hcells
  have hlength : cells.length = t.columns.length := by
    rcases List.mem_cons.mp hcells with rfl | hcells
    · rfl
    · obtain ⟨row, hrow, rfl⟩ := List.mem_map.mp hcells
      rw [List.length_map]
      exact h.rectangular row hrow
  refine List.forall₂_iff_get.mpr ⟨hlength.trans t.length_widths.symm, fun i hi hw => ⟨?_, ?_⟩⟩
  · have hgreatest := isGreatest_widths (List.getElem?_eq_getElem hw)
    exact hgreatest.2 ⟨cells, hcells, _, List.getElem?_eq_getElem hi, rfl⟩
  · exact h.blank_notMem_getLast? cells hcells _ (List.get_mem cells ⟨i, hi⟩)

/-- **Where a column begins** on each line: behind the columns to its left, each of
which takes three characters more than it is wide. -/
def columnStart (ws : List ℕ) (i : ℕ) : ℕ := ((ws.take i).map (· + 3)).sum

theorem columnStart_succ (w : ℕ) (ws : List ℕ) (i : ℕ) :
    columnStart (w :: ws) (i + 1) = w + 3 + columnStart ws i := rfl

/-- The same character so many times. -/
def stretch (n : ℕ) (c : Char) : String := String.ofList (List.replicate n c)

theorem length_stretch (n : ℕ) (c : Char) : (stretch n c).length = n := by
  rw [stretch, String.length_ofList, List.length_replicate]

/-! ## Rules -/

section Rule

variable {w : ℕ} {ws ws' : List ℕ} {cs cs' : List Char}

theorem rule_cons : rule (w :: ws) = "+" ++ stretch (w + 2) '-' ++ rule ws := by
  rw [rule, List.map_cons, String.join_cons, String.append_assoc]
  rfl

theorem toList_rule_cons : (rule (w :: ws)).toList
    = '+' :: (List.replicate (w + 2) '-' ++ (rule ws).toList) := by
  simp only [rule_cons, stretch, String.toList_append, String.toList_ofList, List.append_assoc]
  rfl

/-- A rule begins with a corner. -/
theorem exists_rule_eq (ws : List ℕ) : ∃ rest, (rule ws).toList = '+' :: rest := by
  cases ws with
  | nil => exact ⟨_, rfl⟩
  | cons w ws => exact ⟨_, toList_rule_cons⟩

theorem length_rule (ws : List ℕ) : (rule ws).length = 1 + (ws.map (· + 3)).sum + 1 := by
  rw [← String.length_toList]
  induction ws with
  | nil => rfl
  | cons w ws ih =>
    rw [toList_rule_cons, List.length_cons, List.length_append, ih, List.length_replicate,
      List.map_cons, List.sum_cons]
    omega

/-- **A rule has a stretch for each column**, between two corners. -/
theorem exists_rule_at {i : ℕ} (h : ws[i]? = some w) :
    ∃ front back, rule ws = front ++ "+" ++ stretch (w + 2) '-' ++ "+" ++ back
      ∧ front.length = columnStart ws i := by
  induction ws generalizing i with
  | nil => cases h
  | cons w₀ ws ih =>
    cases i with
    | zero =>
      obtain rfl := Option.some.inj h
      obtain ⟨rest, hrest⟩ := exists_rule_eq ws
      have hcorner : rule ws = "+" ++ String.ofList rest := by
        rw [← String.toList_inj, hrest, String.toList_append, @String.toList_ofList rest]
        rfl
      refine ⟨"", String.ofList rest, ?_, rfl⟩
      rw [rule_cons, hcorner, String.empty_append]
      simp only [String.append_assoc]
    | succ i =>
      obtain ⟨front, back, hrule, hlength⟩ := ih h
      refine ⟨"+" ++ stretch (w₀ + 2) '-' ++ front, back, ?_, ?_⟩
      · rw [rule_cons, hrule]
        simp only [String.append_assoc]
      · rw [String.length_append, String.length_append, length_stretch, hlength, columnStart_succ]
        show 1 + (w₀ + 2) + _ = _
        omega

/-- **A rule tells the widths of the columns**, whatever comes behind it. -/
theorem rule_append_inj (h : (rule ws).toList ++ cs = (rule ws').toList ++ cs') :
    ws = ws' ∧ cs = cs' := by
  induction ws generalizing ws' with
  | nil =>
    cases ws' with
    | nil => exact ⟨rfl, List.append_cancel_left h⟩
    | cons w' ws' =>
      rw [toList_rule_cons] at h
      cases h
  | cons w ws ih =>
    cases ws' with
    | nil =>
      rw [toList_rule_cons] at h
      cases h
    | cons w' ws' =>
      obtain ⟨rest, hrest⟩ := exists_rule_eq ws
      obtain ⟨rest', hrest'⟩ := exists_rule_eq ws'
      have hdash : ∀ n : ℕ, '+' ∉ List.replicate n '-' := by
        intro n hmem
        exact absurd (List.eq_of_mem_replicate hmem) (by decide)
      rw [toList_rule_cons, toList_rule_cons, List.cons_append, List.cons_append,
        List.append_assoc, List.append_assoc, hrest, hrest', List.cons_append,
        List.cons_append] at h
      obtain ⟨hstretch, hbehind⟩ :=
        append_cons_inj (hdash (w + 2)) (hdash (w' + 2)) (List.cons.inj h).2
      have hw : w + 2 = w' + 2 := by
        have hlength := congrArg List.length hstretch
        rwa [List.length_replicate, List.length_replicate] at hlength
      have hrules : (rule ws).toList ++ cs = (rule ws').toList ++ cs' := by
        rw [hrest, hrest']
        exact congrArg (List.cons '+') hbehind
      obtain ⟨rfl, hcs⟩ := ih hrules
      exact ⟨congrArg (· :: ws) (Nat.add_right_cancel hw), hcs⟩

end Rule

/-! ## Lines with cells -/

section Line

variable {w : ℕ} {ws : List ℕ} {c c' : String} {cells cells' : List String}
  {rows rows' : List (List String)} {cs cs' : List Char}

theorem toList_fill (c : String) (w : ℕ) :
    (fill c w).toList = c.toList ++ List.replicate (w - c.length) ' ' := by
  rw [fill, String.toList_append, String.toList_ofList]

/-- A cell that fits is filled up to the width of its column. -/
theorem FitsIn.length_fill (h : FitsIn c w) : (fill c w).toList.length = w := by
  rw [toList_fill, List.length_append, String.length_toList, List.length_replicate]
  exact Nat.add_sub_of_le h.length_le

/-- Without the blanks at its end, a cell that does not end with one is what it was
before it was filled up. -/
theorem rdropWhile_fill (h : ' ' ∉ c.toList.getLast?) (w : ℕ) :
    (fill c w).toList.rdropWhile (· = ' ') = c.toList := by
  rw [toList_fill]
  generalize w - c.length = k
  induction k with
  | zero =>
    rw [List.replicate_zero, List.append_nil, List.rdropWhile_eq_self_iff]
    intro hne hlast
    refine h ?_
    rw [List.getLast?_eq_some_getLast hne, of_decide_eq_true hlast]
    rfl
  | succ k ih =>
    rw [List.replicate_succ', ← List.append_assoc, List.rdropWhile_concat_pos _ _ _ rfl]
    exact ih

/-- **A filled cell tells the cell.** -/
theorem FitsIn.fill_inj (h : FitsIn c w) (h' : FitsIn c' w)
    (heq : (fill c w).toList = (fill c' w).toList) : c = c' := by
  rw [← String.toList_inj, ← rdropWhile_fill h.ends w, heq, rdropWhile_fill h'.ends w]

theorem line_cons :
    line (w :: ws) (c :: cells) = "| " ++ fill c w ++ " " ++ line ws cells := by
  rw [line, List.zip_cons_cons, List.map_cons, String.join_cons, String.append_assoc]
  rfl

theorem toList_line_cons : (line (w :: ws) (c :: cells)).toList
    = '|' :: ' ' :: ((fill c w).toList ++ ' ' :: (line ws cells).toList) := by
  rw [line_cons]
  simp only [String.toList_append, List.append_assoc]
  rfl

/-- A line begins with a bar. -/
theorem exists_line_eq (h : List.Forall₂ FitsIn cells ws) :
    ∃ rest, (line ws cells).toList = '|' :: rest := by
  cases h with
  | nil => exact ⟨_, rfl⟩
  | cons => exact ⟨_, toList_line_cons⟩

theorem length_line (h : List.Forall₂ FitsIn cells ws) :
    (line ws cells).length = 1 + (ws.map (· + 3)).sum + 1 := by
  rw [← String.length_toList]
  induction h with
  | nil => rfl
  | cons hc _ ih =>
    rw [toList_line_cons, List.length_cons, List.length_cons, List.length_append, hc.length_fill,
      List.length_cons, ih, List.map_cons, List.sum_cons]
    omega

/-- **A line has a place for each column**, between two bars with a blank inside of
either, where its cell is filled up with blanks. -/
theorem exists_line_at (h : List.Forall₂ FitsIn cells ws) {i : ℕ} (hw : ws[i]? = some w)
    (hc : cells[i]? = some c) :
    ∃ front back,
      line ws cells = front ++ "| " ++ c ++ stretch (w - c.length) ' ' ++ " " ++ "|" ++ back
        ∧ front.length = columnStart ws i := by
  induction h generalizing i with
  | nil => cases hc
  | @cons c₀ w₀ cells ws hfits hrest ih =>
    cases i with
    | zero =>
      obtain rfl := Option.some.inj hw
      obtain rfl := Option.some.inj hc
      obtain ⟨rest, hbar⟩ := exists_line_eq hrest
      have hline : line ws cells = "|" ++ String.ofList rest := by
        rw [← String.toList_inj, hbar, String.toList_append, @String.toList_ofList rest]
        rfl
      refine ⟨"", String.ofList rest, ?_, rfl⟩
      rw [line_cons, hline, fill, String.empty_append, stretch]
      simp only [String.append_assoc]
    | succ i =>
      obtain ⟨front, back, hline, hlength⟩ := ih hw hc
      refine ⟨"| " ++ fill c₀ w₀ ++ " " ++ front, back, ?_, ?_⟩
      · rw [line_cons, hline]
        simp only [String.append_assoc]
      · have hfill : (fill c₀ w₀).length = w₀ := by
          rw [← String.length_toList, hfits.length_fill]
        simp only [String.length_append, hfill, hlength, columnStart_succ]
        show 2 + w₀ + 1 + _ = _
        omega

/-- **A line tells its cells**, once the widths of the columns are known and whatever
comes behind it. -/
theorem line_append_inj (h : List.Forall₂ FitsIn cells ws) (h' : List.Forall₂ FitsIn cells' ws)
    (heq : (line ws cells).toList ++ cs = (line ws cells').toList ++ cs') :
    cells = cells' ∧ cs = cs' := by
  induction h generalizing cells' with
  | nil =>
    cases h'
    exact ⟨rfl, List.append_cancel_left heq⟩
  | @cons c w cells ws hc _ ih =>
    obtain ⟨c', rest, hc', hrest, rfl⟩ := List.forall₂_cons_right_iff.mp h'
    simp only [toList_line_cons, List.cons_append, List.append_assoc, List.cons.injEq,
      true_and] at heq
    -- either cell ends where the column does
    obtain ⟨hfill, hbehind⟩ := List.append_inj heq (hc.length_fill.trans hc'.length_fill.symm)
    obtain ⟨rfl, hcs⟩ := ih hrest (List.cons.inj hbehind).2
    rw [hc.fill_inj hc' hfill]
    exact ⟨rfl, hcs⟩

/-- **Lines tell their cells**, and how many lines there are, if a rule comes behind
them. -/
theorem lines_append_inj (h : ∀ cells ∈ rows, List.Forall₂ FitsIn cells ws)
    (h' : ∀ cells ∈ rows', List.Forall₂ FitsIn cells ws)
    (heq : (rows.flatMap fun cells => (line ws cells).toList) ++ (rule ws).toList
      = (rows'.flatMap fun cells => (line ws cells).toList) ++ (rule ws).toList) :
    rows = rows' := by
  obtain ⟨corner, hcorner⟩ := exists_rule_eq ws
  induction rows generalizing rows' with
  | nil =>
    cases rows' with
    | nil => rfl
    | cons cells' rows' =>
      obtain ⟨rest, hrest⟩ := exists_line_eq (h' cells' List.mem_cons_self)
      rw [List.flatMap_cons, hrest, hcorner] at heq
      cases heq
  | cons cells rows ih =>
    obtain ⟨hfits, hall⟩ := List.forall_mem_cons.mp h
    cases rows' with
    | nil =>
      obtain ⟨rest, hrest⟩ := exists_line_eq hfits
      rw [List.flatMap_cons, hrest, hcorner] at heq
      cases heq
    | cons cells' rows' =>
      obtain ⟨hfits', hall'⟩ := List.forall_mem_cons.mp h'
      rw [List.flatMap_cons, List.flatMap_cons, List.append_assoc, List.append_assoc] at heq
      obtain ⟨rfl, hbehind⟩ := line_append_inj hfits hfits' heq
      exact congrArg _ (ih hall hall' hbehind)

end Line

/-! ## Grids -/

/-- The characters of a grid. -/
theorem toList_drawn (t : Table) : t.drawn.toList
    = (rule t.widths).toList ++ ((line t.widths t.columns).toList ++ ((rule t.widths).toList
      ++ ((t.cells.flatMap fun cells => (line t.widths cells).toList)
        ++ (rule t.widths).toList))) := by
  unfold drawn gridLines
  simp only [String.toList_join, List.flatMap_append, List.flatMap_cons, List.flatMap_nil,
    List.append_nil, List.append_assoc, List.flatMap_map]

/-- **Tables are told from their grids.** -/
theorem Proper.eq_of_drawn {t' : Table} (h : t.Proper) (h' : t'.Proper)
    (heq : t.drawn = t'.drawn) : t = t' := by
  have hchars := congrArg String.toList heq
  rw [toList_drawn, toList_drawn] at hchars
  obtain ⟨hnames, hcells⟩ := List.forall_mem_cons.mp h.fitsIn
  obtain ⟨hnames', hcells'⟩ := List.forall_mem_cons.mp h'.fitsIn
  obtain ⟨hwidths, hheader⟩ := rule_append_inj hchars
  rw [← hwidths] at hheader hnames' hcells'
  obtain ⟨hcolumns, hmiddle⟩ := line_append_inj hnames hnames' hheader
  obtain ⟨-, hlines⟩ := rule_append_inj hmiddle
  have hsame : t.cells = t'.cells := lines_append_inj hcells hcells' hlines
  have hrows : t.rows = t'.rows :=
    List.map_injective_iff.mpr (List.map_injective_iff.mpr Node.written_injective) hsame
  cases t
  cases t'
  cases hcolumns
  cases hrows
  rfl

/-- Each line of a grid ends with a line feed, and the characters in front of it are
three for each column, those of its width, and one. -/
theorem Proper.exists_body (h : t.Proper) {l : String}
    (hl : l = rule t.widths ∨ ∃ cells ∈ t.columns :: t.cells, l = line t.widths cells) :
    ∃ body, l = body ++ "\n" ∧ body.length = 1 + (t.widths.map (· + 3)).sum := by
  have hends : ∃ body, l = body ++ "\n" := by
    rcases hl with rfl | ⟨cells, -, rfl⟩
    · exact ⟨_, (@String.append_assoc _ "+" "\n").symm⟩
    · exact ⟨_, (@String.append_assoc _ "|" "\n").symm⟩
  have hlength : l.length = 1 + (t.widths.map (· + 3)).sum + 1 := by
    rcases hl with rfl | ⟨cells, hcells, rfl⟩
    · exact length_rule t.widths
    · exact length_line (h.fitsIn cells hcells)
  obtain ⟨body, rfl⟩ := hends
  rw [String.length_append] at hlength
  exact ⟨body, rfl, Nat.add_right_cancel hlength⟩

/-- **How a column is drawn.** -/
structure DrawsColumn (t : Table) (i w : ℕ) : Prop where
  /-- It is as wide as the longest of its cells as they are written, its name
  included. -/
  width : IsGreatest (t.lengthsIn i) w
  /-- In a rule, dashes stand between two corners. -/
  ruled : ∃ front back, rule t.widths = front ++ "+" ++ stretch (w + 2) '-' ++ "+" ++ back
    ∧ front.length = columnStart t.widths i
  /-- On every other line, bars stand where the corners do, and between them the cell,
  filled up with blanks. -/
  cell : ∀ cells ∈ t.columns :: t.cells, ∀ c ∈ cells[i]?, ∃ front back,
    line t.widths cells = front ++ "| " ++ c ++ stretch (w - c.length) ' ' ++ " " ++ "|" ++ back
      ∧ front.length = columnStart t.widths i

/-- **A grid is aligned and loses nothing.** Whatever the nodes of a table are, its
grid is a rule, a line with the names of the columns, a rule, a line for each row
and a rule. All of them are equally long, line feeds in cells counted like any
other character: three characters for each column, those of its width, and one in
front of the line feed at the end. There is a width for each column, the length of
the longest of its cells, and the column is drawn in this width, at the same place
on every line. And there is one table only that is drawn like this. -/
theorem grid_aligned_and_lossless (t : Table) (h : t.Proper) :
    let ws := t.widths
    let lines := rule ws :: line ws t.columns :: rule ws :: (t.cells.map (line ws) ++ [rule ws])
    t.drawn = String.join lines
      ∧ (∀ l ∈ lines, ∃ body, l = body ++ "\n" ∧ body.length = 1 + (ws.map (· + 3)).sum)
      ∧ ws.length = t.columns.length
      ∧ (∀ i w, ws[i]? = some w → t.DrawsColumn i w)
      ∧ ∀ t' : Table, t'.Proper → t'.drawn = t.drawn → t' = t := by
  intro ws lines
  refine ⟨rfl, fun l hl => h.exists_body ?_, t.length_widths, fun i w hw => ?_,
    fun t' h' => h'.eq_of_drawn h⟩
  · simp only [lines, List.mem_cons, List.mem_append, List.mem_map, List.not_mem_nil,
      or_false] at hl
    rcases hl with rfl | rfl | rfl | ⟨cells, hcells, rfl⟩ | rfl
    · exact Or.inl rfl
    · exact Or.inr ⟨t.columns, List.mem_cons_self, rfl⟩
    · exact Or.inl rfl
    · exact Or.inr ⟨cells, List.mem_cons_of_mem _ hcells, rfl⟩
    · exact Or.inl rfl
  · exact ⟨isGreatest_widths hw, exists_rule_at hw,
      fun cells hcells c hc => exists_line_at (h.fitsIn cells hcells) hw hc⟩

/-- A table with an empty node, and with nodes that imitate the end of a line, a rule
and a row. There is no other table with this grid. -/
theorem grid_aligned_and_lossless_of_borders :
    let t : Table := ⟨["?x", "?_1"], [[⟨""⟩, ⟨"b |\n+--"⟩], [⟨"\" | a"⟩, ⟨"c"⟩]]⟩
    let grid := "+----------+-----------+\n" ++ "| ?x       | ?_1       |\n"
      ++ "+----------+-----------+\n" ++ "| \"\"       | \"b |\n+--\" |\n"
      ++ "| \"\\\" | a\" | c         |\n" ++ "+----------+-----------+\n"
    t.drawn = grid ∧ t.widths = [8, 9] ∧ t.DrawsColumn 1 9
      ∧ ∀ t' : Table, t'.Proper → t'.drawn = grid → t' = t := by
  intro t grid
  have hx : IsWord "x" := by decide
  have hwildcard : IsWord "_1" := by decide
  have hproper : t.Proper := by
    refine ⟨by decide, ?_⟩
    rintro name (_ | ⟨_, _ | ⟨_, ⟨⟩⟩⟩)
    · exact ⟨"x", rfl, hx.2⟩
    · exact ⟨"_1", rfl, hwildcard.2⟩
  have hdrawn : t.drawn = grid := by decide +kernel
  have hwidths : t.widths = [8, 9] := by decide +kernel
  obtain ⟨-, -, -, hcolumn, honly⟩ := grid_aligned_and_lossless t hproper
  rw [hdrawn] at honly
  refine ⟨hdrawn, hwidths, hcolumn 1 9 ?_, honly⟩
  rw [hwidths]
  rfl

end Table

end TripleScript
