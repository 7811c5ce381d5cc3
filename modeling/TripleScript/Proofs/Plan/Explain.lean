import TripleScript.Plan.Explain
import TripleScript.Proofs.Query.Columns
import TripleScript.Text.Parts

/-!
# What an explanation tells of a plan

The explanation of a plan is meant for people, but nothing that is in it can be
mistaken for anything else. Each piece of it ends where it ends, whatever
comes behind: two texts that begin with pieces of one kind and are equal begin
with the same piece and go on in the same way. This is the shape of most of
the lemmas here (`SlotPattern.explained_append_inj` for patterns,
`ScanStep.operator_append_inj` for the line of a scan), and
`SelectPlan.alike_of_explain` puts them together line by line.

Two things of a query's plan are not in its explanation, the places that the
patterns have in the statement and the slots that the columns show. The places
do not matter for what the plan answers. The slots do, so plans with the same
explanation have the same solutions (`SelectPlan.Alike.solutions_eq`), but the
same answer only if their columns show the same slots
(`answer_eq_of_explain_eq`).
-/

namespace TripleScript

/-! ## Where a piece of text ends -/

/-- A part without separators ends at the first separator. -/
theorem append_cons_inj {separator : Char} {part part' cs cs' : List Char}
    (free : separator ∉ part) (free' : separator ∉ part')
    (h : part ++ separator :: cs = part' ++ separator :: cs') : part = part' ∧ cs = cs' := by
  have hparts := congrArg (Text.parts separator) h
  rw [Text.parts_append_cons free, Text.parts_append_cons free'] at hparts
  obtain rfl := (List.cons.inj hparts).1
  exact ⟨rfl, (List.cons.inj (List.append_cancel_left h)).2⟩

/-- A text that does not go on with a word in front of it. -/
def EndsWords (cs : List Char) : Prop := ∀ c ∈ cs.head?, ¬BareCharacter c

/-- It is enough that its first character is not bare. -/
theorem endsWords_cons {c : Char} (h : ¬BareCharacter c) (cs : List Char) :
    EndsWords (c :: cs) := by
  rintro c ⟨⟩
  exact h

section Pieces

variable {cs cs' : List Char}

/-- A word ends where no bare character follows. -/
theorem IsWord.append_inj {w w' : String} (hw : IsWord w) (hw' : IsWord w')
    (hcs : EndsWords cs) (hcs' : EndsWords cs') (h : w.toList ++ cs = w'.toList ++ cs') :
    w = w' ∧ cs = cs' := by
  obtain ⟨hl, hrest⟩ := hw.spelling.append_inj hw'.spelling (fun _ => hcs) (fun _ => hcs') h
  exact ⟨Lexeme.word.inj hl, hrest⟩

/-- So does a number. -/
theorem toString_append_inj {n n' : ℕ} (hcs : EndsWords cs) (hcs' : EndsWords cs')
    (h : (toString n).toList ++ cs = (toString n').toList ++ cs') : n = n' ∧ cs = cs' := by
  obtain ⟨hn, hrest⟩ := (isWord_toString n).append_inj (isWord_toString n') hcs hcs' h
  exact ⟨toString_injective hn, hrest⟩

/-- So does a node, be it a word or a quoted text. -/
theorem Node.written_append_inj {n n' : Node} (hcs : EndsWords cs) (hcs' : EndsWords cs')
    (h : n.written.toList ++ cs = n'.written.toList ++ cs') : n = n' ∧ cs = cs' := by
  obtain ⟨l, hl, hspelling⟩ := exists_spelling_node n
  obtain ⟨l', hl', hspelling'⟩ := exists_spelling_node n'
  obtain ⟨rfl, hrest⟩ := hspelling.append_inj hspelling' (fun _ => hcs) (fun _ => hcs') h
  cases hl <;> cases hl' <;> exact ⟨rfl, hrest⟩

/-- A node does not begin like a slot. -/
theorem Node.written_append_ne {n : Node} (hcs : EndsWords cs) (ds : List Char) :
    n.written.toList ++ cs ≠ '$' :: ds := by
  intro h
  obtain ⟨l, -, hspelling⟩ := exists_spelling_node n
  obtain ⟨c, rest, stop, hcons, hread⟩ := nextLexeme_of_spelling hspelling (fun _ => hcs) 0
  rw [h, List.cons.injEq] at hcons
  obtain ⟨rfl, -⟩ := hcons
  -- no token begins with this character
  cases hread

/-- So does a position of a pattern. -/
theorem SlotTerm.explained_append_inj {t t' : SlotTerm} (hcs : EndsWords cs)
    (hcs' : EndsWords cs') (h : t.explained.toList ++ cs = t'.explained.toList ++ cs') :
    t = t' ∧ cs = cs' := by
  have hslot : ∀ i : ℕ, (slot i).explained.toList = '$' :: (toString i).toList := fun i => by
    rw [explained, String.toList_append]
    rfl
  cases t with
  | const n =>
    cases t' with
    | const n' =>
      obtain ⟨rfl, hrest⟩ := Node.written_append_inj hcs hcs' h
      exact ⟨rfl, hrest⟩
    | slot i' =>
      rw [hslot] at h
      exact absurd h (Node.written_append_ne hcs _)
  | slot i =>
    rw [hslot] at h
    cases t' with
    | const n' => exact absurd h.symm (Node.written_append_ne hcs' _)
    | slot i' =>
      rw [hslot] at h
      obtain ⟨rfl, hrest⟩ := toString_append_inj hcs hcs' (List.cons.inj h).2
      exact ⟨rfl, hrest⟩

/-- The characters of a pattern. -/
theorem SlotPattern.toList_explained (p : SlotPattern) :
    p.explained.toList = '(' :: (p.subject.explained.toList ++ ',' :: ' '
      :: (p.predicate.explained.toList ++ ',' :: ' '
        :: (p.object.explained.toList ++ [')']))) := by
  simp only [explained, toString, String.toList_append, List.append_assoc]
  rfl

/-- **A pattern ends with its parenthesis**, whatever follows. -/
theorem SlotPattern.explained_append_inj {p p' : SlotPattern}
    (h : p.explained.toList ++ cs = p'.explained.toList ++ cs') : p = p' ∧ cs = cs' := by
  have hcomma := endsWords_cons (c := ',') (by decide)
  have hclose := endsWords_cons (c := ')') (by decide)
  obtain ⟨s, p, o⟩ := p
  obtain ⟨s', p', o'⟩ := p'
  rw [toList_explained, toList_explained] at h
  simp only [List.cons_append, List.append_assoc, List.nil_append, List.cons.injEq, true_and] at h
  obtain ⟨rfl, hpredicate⟩ := SlotTerm.explained_append_inj (hcomma _) (hcomma _) h
  simp only [List.cons.injEq, true_and] at hpredicate
  obtain ⟨rfl, hobject⟩ := SlotTerm.explained_append_inj (hcomma _) (hcomma _) hpredicate
  simp only [List.cons.injEq, true_and] at hobject
  obtain ⟨rfl, hrest⟩ := SlotTerm.explained_append_inj (hclose _) (hclose _) hobject
  exact ⟨rfl, (List.cons.inj hrest).2⟩

end Pieces

/-! ## Lines -/

namespace Operator

/-- The properties of an operator as its line has them. -/
def written (op : Operator) : List Char :=
  op.properties.flatMap fun (key, value) => ' ' :: (key.toList ++ '=' :: value.toList)

/-- The characters of a line. -/
theorem toList_line (depth : ℕ) (op : Operator) :
    (op.line depth).toList
      = List.replicate (2 * depth) ' ' ++ (op.name.toList ++ (op.written ++ ['\n'])) := by
  have hproperties : (String.join (op.properties.map fun (key, value) => s!" {key}={value}")).toList
      = op.written := by
    rw [String.toList_join, List.flatMap_map]
    refine List.flatMap_congr fun entry _ => ?_
    obtain ⟨key, value⟩ := entry
    simp only [toString, String.toList_append, List.append_assoc]
    rfl
  have hline : op.line depth = String.ofList (List.replicate (2 * depth) ' ') ++ op.name
      ++ String.join (op.properties.map fun (key, value) => s!" {key}={value}") ++ "\n" := rfl
  rw [hline]
  simp only [String.toList_append, String.toList_ofList, hproperties, List.append_assoc]
  rfl

/-- The lines of some operators, the first of them under `depth` others. -/
def lines (depth : ℕ) : List Operator → List Char
  | [] => []
  | op :: ops => (op.line depth).toList ++ lines (depth + 1) ops

end Operator

/-- An explanation is the lines of its operators. -/
theorem Plan.toList_explain (store : String) (p : Plan) :
    (p.explain store).toList = Operator.lines 0 (p.operators store) := by
  have hlines : ∀ (ops : List Operator) (depth : ℕ),
      (ops.zipIdx depth).flatMap (fun entry => (entry.1.line entry.2).toList)
        = Operator.lines depth ops := by
    intro ops
    induction ops with
    | nil => exact fun _ => rfl
    | cons op ops ih => exact fun depth => congrArg _ (ih (depth + 1))
  rw [explain, String.toList_join, List.flatMap_map]
  exact hlines (p.operators store) 0

namespace Operator

variable {op op' : Operator} {ops ops' : List Operator} {depth : ℕ}

/-- **A line begins with the name of its operator**, and what follows the
names of two lines is the same if the lines are. -/
theorem lines_cons_inj (hname : IsWord op.name) (hname' : IsWord op'.name)
    (h : lines depth (op :: ops) = lines depth (op' :: ops')) :
    op.name = op'.name
      ∧ op.written ++ '\n' :: lines (depth + 1) ops
        = op'.written ++ '\n' :: lines (depth + 1) ops' := by
  have hend : ∀ (op : Operator) (cs : List Char), EndsWords (op.written ++ '\n' :: cs) := by
    intro op cs
    unfold written
    cases op.properties with
    | nil => exact endsWords_cons (by decide) _
    | cons entry entries => exact endsWords_cons (c := ' ') (by decide) _
  simp only [lines, toList_line, List.append_assoc, List.cons_append, List.nil_append] at h
  exact hname.append_inj hname' (hend op _) (hend op' _) (List.append_cancel_left h)

end Operator

/-! ## Scans -/

/-- What an explanation tells of a scan. -/
def ScanStep.told (s : ScanStep) : SlotPattern × ℕ := (s.pattern, s.estimate)

namespace ScanStep

variable {s s' : ScanStep} {capacity capacity' : Option ℕ} {cs cs' : List Char}

/-- How the properties of a scan end that hands on this many triples. -/
def writtenChannel (capacity : Option ℕ) : List Char :=
  capacity.toList.flatMap fun n => ' ' :: ("channel".toList ++ '=' :: (toString n).toList)

theorem written_operator (s : ScanStep) (capacity : Option ℕ) :
    (s.operator capacity).written
      = ' ' :: ("pattern".toList ++ '=' :: (s.pattern.explained.toList
        ++ ' ' :: ("est".toList ++ '=' :: ((toString s.estimate).toList
          ++ writtenChannel capacity)))) := by
  cases capacity <;> simp [operator, Operator.written, writtenChannel]

theorem endsWords_writtenChannel (capacity : Option ℕ) (cs : List Char) :
    EndsWords (writtenChannel capacity ++ '\n' :: cs) := by
  cases capacity with
  | none => exact endsWords_cons (by decide) _
  | some n => exact endsWords_cons (c := ' ') (by decide) _

/-- The number of triples handed on ends with its line. -/
theorem writtenChannel_append_inj
    (h : writtenChannel capacity ++ '\n' :: cs = writtenChannel capacity' ++ '\n' :: cs') :
    capacity = capacity' ∧ cs = cs' := by
  have hend := endsWords_cons (c := '\n') (by decide)
  cases capacity with
  | none =>
    cases capacity' with
    | none => exact ⟨rfl, (List.cons.inj h).2⟩
    | some n' => cases h
  | some n =>
    cases capacity' with
    | none => cases h
    | some n' =>
      simp only [writtenChannel, Option.toList_some, List.flatMap_singleton, List.cons_append,
        List.append_assoc, List.cons.injEq, true_and, List.append_cancel_left_eq] at h
      obtain ⟨rfl, hrest⟩ := toString_append_inj (hend _) (hend _) h
      exact ⟨rfl, (List.cons.inj hrest).2⟩

/-- **The line of a scan tells its pattern and its estimate.** -/
theorem operator_append_inj
    (h : (s.operator capacity).written ++ '\n' :: cs
      = (s'.operator capacity').written ++ '\n' :: cs') :
    s.told = s'.told ∧ capacity = capacity' ∧ cs = cs' := by
  simp only [written_operator, List.cons_append, List.append_assoc, List.cons.injEq, true_and,
    List.append_cancel_left_eq] at h
  obtain ⟨hpattern, hestimate⟩ := SlotPattern.explained_append_inj h
  simp only [List.cons.injEq, true_and, List.append_cancel_left_eq] at hestimate
  obtain ⟨hestimate, hchannel⟩ := toString_append_inj (endsWords_writtenChannel _ _)
    (endsWords_writtenChannel _ _) hestimate
  exact ⟨Prod.ext hpattern hestimate, writtenChannel_append_inj hchannel⟩

end ScanStep

/-- The operators of some joined scans, the last one first, and of the first
scan, which hands on `n` triples. -/
def Operator.ofScans (joined : List ScanStep) (first : ScanStep) (n : ℕ) : List Operator :=
  joined.map (ScanStep.operator none) ++ [first.operator (some n)]

/-- **The lines of scans tell all of them.** -/
theorem ofScans_lines_inj {joined joined' : List ScanStep} {first first' : ScanStep}
    {n n' depth : ℕ}
    (h : Operator.lines depth (Operator.ofScans joined first n)
      = Operator.lines depth (Operator.ofScans joined' first' n')) :
    joined.map ScanStep.told = joined'.map ScanStep.told ∧ first.told = first'.told ∧ n = n' := by
  have hscan : IsWord "Scan" := by decide
  have hjoin : IsWord "IndexJoin" := by decide
  have hne : "Scan" ≠ "IndexJoin" := by decide
  induction joined generalizing joined' depth with
  | nil =>
    cases joined' with
    | nil =>
      obtain ⟨-, hlines⟩ := Operator.lines_cons_inj hscan hscan h
      obtain ⟨hfirst, hn, -⟩ := ScanStep.operator_append_inj hlines
      exact ⟨rfl, hfirst, Option.some.inj hn⟩
    | cons step' joined' => exact absurd (Operator.lines_cons_inj hscan hjoin h).1 hne
  | cons step joined ih =>
    cases joined' with
    | nil => exact absurd (Operator.lines_cons_inj hjoin hscan h).1 hne.symm
    | cons step' joined' =>
      obtain ⟨-, hlines⟩ := Operator.lines_cons_inj hjoin hjoin h
      obtain ⟨hstep, -, hrest⟩ := ScanStep.operator_append_inj hlines
      obtain ⟨hjoined, hfirst⟩ := ih hrest
      exact ⟨by rw [List.map_cons, List.map_cons, hstep, hjoined], hfirst⟩

/-! ## Operators that may be left out -/

namespace Operator

/-- The first of some operators has another name. -/
def BeginsApart (name : String) (ops : List Operator) : Prop :=
  ∃ op rest, ops = op :: rest ∧ IsWord op.name ∧ op.name ≠ name

/-- **Lines tell whether an operator is there**, if what can stand in its place
has another name. -/
theorem lines_cons_ne {op : Operator} {ops ops' : List Operator} {depth : ℕ}
    (hname : IsWord op.name) (h : BeginsApart op.name ops') :
    lines depth (op :: ops) ≠ lines depth ops' := by
  obtain ⟨op', rest, rfl, hname', hne⟩ := h
  exact fun hlines => hne (lines_cons_inj hname hname' hlines).1.symm

end Operator

/-! ## Columns -/

section Columns

variable {names names' : List String}

/-- Taken apart at the commas, a list of columns gives their names. -/
theorem splitOn_columns (h : ∀ name ∈ names, IsColumnName name) :
    ((",".intercalate names).toList.splitOn ',').filter (· ≠ []) = names.map String.toList := by
  rw [String.toList_intercalate]
  cases names with
  | nil => rfl
  | cons name names =>
    have hcomma : ∀ l ∈ (name :: names).map String.toList, ',' ∉ l :=
      List.forall_mem_map.mpr fun name hname => (h name hname).notMem (by decide) (by decide)
    have hne : ∀ l ∈ (name :: names).map String.toList, l ≠ [] := by
      refine List.forall_mem_map.mpr fun name hname => ?_
      obtain ⟨w, rfl, -⟩ := h name hname
      simp
    rw [show ",".toList = [','] from rfl,
      List.splitOn_intercalate ',' hcomma (List.cons_ne_nil _ _)]
    exact List.filter_eq_self.mpr fun l hl => decide_eq_true (hne l hl)

/-- **A list of columns tells their names**, none of which is empty. -/
theorem columns_inj (h : ∀ name ∈ names, IsColumnName name)
    (h' : ∀ name ∈ names', IsColumnName name)
    (heq : ",".intercalate names = ",".intercalate names') : names = names' := by
  have hlists := splitOn_columns h
  rw [heq, splitOn_columns h'] at hlists
  exact (List.map_injective_iff.mpr fun s t => String.toList_inj.mp) hlists.symm

/-- It has no blank in it. -/
theorem blank_notMem_columns (h : ∀ name ∈ names, IsColumnName name) :
    ' ' ∉ (",".intercalate names).toList := by
  induction names with
  | nil => exact List.not_mem_nil
  | cons name names ih =>
    obtain ⟨hfirst, hothers⟩ := List.forall_mem_cons.mp h
    have hname : ' ' ∉ name.toList := hfirst.notMem (by decide) (by decide)
    cases names with
    | nil =>
      rw [String.intercalate_singleton]
      exact hname
    | cons other names =>
      rw [String.intercalate_cons_cons, String.toList_append, String.toList_append,
        List.mem_append, List.mem_append, not_or, not_or]
      exact ⟨⟨hname, by decide⟩, ih hothers⟩

end Columns

/-! ## Plans -/

/-- **Two plans of which an explanation tells the same**: they differ at most
in the places that their patterns have in the statement, in the slots that
their columns show, and in how many slots a row has. -/
structure SelectPlan.Alike (p p' : SelectPlan) : Prop where
  /-- The scans look for the same patterns in the same order, with the same
  estimates. -/
  steps : p.steps.map ScanStep.told = p'.steps.map ScanStep.told
  /-- The columns have the same names. -/
  columns : p.columns = p'.columns
  /-- Equal rows are given once or not. -/
  distinct : p.distinct = p'.distinct
  /-- As many rows are wanted. -/
  limit : p.limit = p'.limit
  /-- As many triples are handed on at a time. -/
  capacity : p.capacity = p'.capacity

namespace SelectPlan

/-- The operator that equal rows are given once, if they are. -/
def distinctOperators (distinct : Bool) : List Operator :=
  if distinct then [⟨"Distinct", []⟩] else []

/-- The operator of a limit, if there is one. -/
def limitOperators (limit : Option ℕ) : List Operator :=
  limit.toList.map fun n => ⟨"Limit", [("rows", toString n)]⟩

variable {joined joined' : List ScanStep} {first first' : ScanStep} {n n' depth : ℕ}

/-- Scans have their own names. -/
theorem beginsApart_ofScans {name : String} (hscan : "Scan" ≠ name) (hjoin : "IndexJoin" ≠ name)
    (joined : List ScanStep) (first : ScanStep) (n : ℕ) :
    Operator.BeginsApart name (Operator.ofScans joined first n) := by
  cases joined
  · exact ⟨_, _, rfl, (by decide : IsWord "Scan"), hscan⟩
  · exact ⟨_, _, rfl, (by decide : IsWord "IndexJoin"), hjoin⟩

/-- The operators of a plan: the columns, the two that may be left out, and
the scans. -/
theorem operators_eq {p : SelectPlan} {first : ScanStep} {rest : List ScanStep} (store : String)
    (hsteps : p.steps = first :: rest) :
    p.operators store
      = ⟨"Project", [("columns", ",".intercalate p.columns), ("store", store)]⟩
        :: (limitOperators p.limit ++ (distinctOperators p.distinct
          ++ Operator.ofScans rest.reverse first p.capacity)) := by
  simp only [operators, scanOperators, hsteps, Operator.ofScans, List.map_reverse,
    List.append_assoc]
  rfl

/-- The lines below a limit tell everything else. -/
theorem distinct_lines_inj {distinct distinct' : Bool}
    (h : Operator.lines depth (distinctOperators distinct ++ Operator.ofScans joined first n)
      = Operator.lines depth (distinctOperators distinct'
        ++ Operator.ofScans joined' first' n')) :
    distinct = distinct' ∧ joined.map ScanStep.told = joined'.map ScanStep.told
      ∧ first.told = first'.told ∧ n = n' := by
  have hword : IsWord "Distinct" := by decide
  have hback : ∀ (joined : List ScanStep) (first : ScanStep) (n : ℕ),
      Operator.BeginsApart "Distinct" (Operator.ofScans joined first n) :=
    beginsApart_ofScans (by decide) (by decide)
  cases distinct with
  | false =>
    cases distinct' with
    | false => exact ⟨rfl, ofScans_lines_inj h⟩
    | true => exact absurd h.symm (Operator.lines_cons_ne hword (hback ..))
  | true =>
    cases distinct' with
    | false => exact absurd h (Operator.lines_cons_ne hword (hback ..))
    | true =>
      obtain ⟨-, hlines⟩ := Operator.lines_cons_inj hword hword h
      exact ⟨rfl, ofScans_lines_inj (List.cons.inj hlines).2⟩

/-- The lines below the columns tell everything else. -/
theorem limit_lines_inj {limit limit' : Option ℕ} {distinct distinct' : Bool}
    (h : Operator.lines depth (limitOperators limit ++ (distinctOperators distinct
        ++ Operator.ofScans joined first n))
      = Operator.lines depth (limitOperators limit' ++ (distinctOperators distinct'
        ++ Operator.ofScans joined' first' n'))) :
    limit = limit' ∧ distinct = distinct'
      ∧ joined.map ScanStep.told = joined'.map ScanStep.told ∧ first.told = first'.told
      ∧ n = n' := by
  have hword : IsWord "Limit" := by decide
  have hend := endsWords_cons (c := '\n') (by decide)
  have hback : ∀ (distinct : Bool) (joined : List ScanStep) (first : ScanStep) (n : ℕ),
      Operator.BeginsApart "Limit"
        (distinctOperators distinct ++ Operator.ofScans joined first n) := by
    intro distinct joined first n
    cases distinct with
    | false => exact beginsApart_ofScans (by decide) (by decide) joined first n
    | true => exact ⟨⟨"Distinct", []⟩, _, rfl, by decide, by decide⟩
  cases limit with
  | none =>
    cases limit' with
    | none => exact ⟨rfl, distinct_lines_inj h⟩
    | some k' => exact absurd h.symm (Operator.lines_cons_ne hword (hback ..))
  | some k =>
    cases limit' with
    | none => exact absurd h (Operator.lines_cons_ne hword (hback ..))
    | some k' =>
      obtain ⟨-, hlines⟩ := Operator.lines_cons_inj hword hword h
      simp only [Operator.written, List.flatMap_singleton, List.cons_append, List.append_assoc,
        List.cons.injEq, true_and, List.append_cancel_left_eq] at hlines
      obtain ⟨rfl, hrest⟩ := toString_append_inj (hend _) (hend _) hlines
      exact ⟨rfl, distinct_lines_inj (List.cons.inj hrest).2⟩

/-- **An explanation tells a plan**, up to the slots of the columns and the
places of the patterns. -/
theorem alike_of_explain {p p' : SelectPlan} {store : String}
    (hcolumns : ∀ name ∈ p.columns, IsColumnName name)
    (hcolumns' : ∀ name ∈ p'.columns, IsColumnName name) (hsteps : p.steps ≠ [])
    (hsteps' : p'.steps ≠ [])
    (h : (Plan.select p).explain store = (Plan.select p').explain store) : p.Alike p' := by
  obtain ⟨first, rest, hp⟩ := List.exists_cons_of_ne_nil hsteps
  obtain ⟨first', rest', hp'⟩ := List.exists_cons_of_ne_nil hsteps'
  have hproject : IsWord "Project" := by decide
  have hlines := congrArg String.toList h
  rw [Plan.toList_explain, Plan.toList_explain, Plan.operators, Plan.operators,
    operators_eq store hp, operators_eq store hp'] at hlines
  obtain ⟨-, hlines⟩ := Operator.lines_cons_inj hproject hproject hlines
  simp only [Operator.written, List.flatMap_cons, List.flatMap_nil, List.cons_append,
    List.append_assoc, List.cons.injEq, true_and, List.append_cancel_left_eq] at hlines
  obtain ⟨hnames, hstore⟩ := append_cons_inj (blank_notMem_columns hcolumns)
    (blank_notMem_columns hcolumns') hlines
  simp only [List.cons.injEq, true_and, List.append_cancel_left_eq, List.nil_append] at hstore
  obtain ⟨hlimit, hdistinct, hrest, hfirst, hcapacity⟩ := limit_lines_inj hstore
  rw [List.map_reverse, List.map_reverse, List.reverse_inj] at hrest
  refine ⟨?_, columns_inj hcolumns hcolumns' (String.toList_inj.mp hnames), hdistinct, hlimit,
    hcapacity⟩
  rw [hp, hp', List.map_cons, List.map_cons, hfirst, hrest]

end SelectPlan

/-! ## What plans that are explained alike answer -/

/-- The nested loop goes by the patterns of its scans. -/
theorem completions_eq_of_patterns (m : MemoryStore) {steps steps' : List ScanStep}
    (h : steps.map ScanStep.pattern = steps'.map ScanStep.pattern) :
    completions m steps = completions m steps' := by
  induction steps generalizing steps' with
  | nil =>
    obtain rfl := List.map_eq_nil_iff.mp h.symm
    rfl
  | cons step steps ih =>
    obtain ⟨step', steps'', rfl, hstep, hsteps⟩ := List.map_eq_cons_iff.mp h.symm
    funext row
    rw [completions, completions, ih hsteps.symm, hstep]

/-- The slots of a row are those of the patterns. -/
theorem Covers.lt_iff {steps : List ScanStep} {slots : ℕ} (h : Covers steps slots) {i : ℕ} :
    i < slots ↔ ∃ sp ∈ steps.map ScanStep.pattern, i ∈ sp.slots := by
  constructor
  · intro hi
    obtain ⟨step, hstep, hslot⟩ := h.each i hi
    exact ⟨_, List.mem_map_of_mem hstep, hslot⟩
  · rintro ⟨_, hsp, hslot⟩
    obtain ⟨step, hstep, rfl⟩ := List.mem_map.mp hsp
    exact h.within step hstep i hslot

namespace SelectPlan.Alike

variable {p p' : SelectPlan}

theorem patterns (h : p.Alike p') :
    p.steps.map ScanStep.pattern = p'.steps.map ScanStep.pattern := by
  have hpatterns := congrArg (List.map Prod.fst) h.steps
  rwa [List.map_map, List.map_map] at hpatterns

/-- **Sound plans that are explained alike have the same solutions**, in the
same order. -/
theorem solutions_eq (h : p.Alike p') (hp : p.Sound) (hp' : p'.Sound) (m : MemoryStore) :
    solutions m p.steps p.slotCount = solutions m p'.steps p'.slotCount := by
  have hslots : p.slotCount = p'.slotCount := eq_of_forall_lt_iff fun i => by
    rw [hp.covers.lt_iff, hp'.covers.lt_iff, h.patterns]
  unfold solutions
  rw [hslots, completions_eq_of_patterns m h.patterns]

/-- And the same answer, if their columns show the same slots. -/
theorem fullAnswer_eq (h : p.Alike p') (hp : p.Sound) (hp' : p'.Sound)
    (hprojection : p.projection = p'.projection) (m : MemoryStore) :
    p.fullAnswer m = p'.fullAnswer m := by
  unfold fullAnswer allRows
  rw [h.columns, h.distinct, h.limit, hprojection, h.solutions_eq hp hp' m]

end SelectPlan.Alike

/-- **The plan of a text is sound and its columns have names that columns can
have.** -/
theorem SelectPlan.sound_and_named_of_plan {text : String} {q : Query} {capacity : ℕ}
    {s s' : Session} {p : SelectPlan} (hcompile : Command.compile text = .ok (.select q))
    (hplan : q.plan capacity s = .ok p s') :
    p.Sound ∧ ∀ name ∈ p.columns, IsColumnName name := by
  obtain ⟨statement, hparse⟩ := exists_parse_of_compile hcompile
  obtain ⟨q', heq, hq⟩ := exists_compile_of_parse hparse hcompile
  cases heq
  refine ⟨sound_of_planned (patterns_ne_nil_of_parse hparse) (compiles_of_compile hq)
    (Query.plannedAs_of_plan hplan), ?_⟩
  obtain ⟨-, -, scans, -, rfl⟩ := Query.exists_scans_of_plan hplan
  exact Query.isColumnName_of_compile (Statement.writable_of_parse hparse) hq

/-- **Plans of queries with the same explanation** have the same solutions in
the same order, whatever a store holds, and columns with the same names; they
give the same answer if each column shows the same slot in both of them. The
plans may have been made for channels of any sizes and on any stores. -/
theorem answer_eq_of_explain_eq {text text' : String} {q q' : Query} {capacity capacity' : ℕ}
    {s₁ s₁' s₂ s₂' : Session} {p p' : SelectPlan}
    (hcompile : Command.compile text = .ok (.select q))
    (hcompile' : Command.compile text' = .ok (.select q'))
    (hplan : q.plan capacity s₁ = .ok p s₂) (hplan' : q'.plan capacity' s₁' = .ok p' s₂')
    (store : String) (h : (Plan.select p).explain store = (Plan.select p').explain store) :
    (∀ m, solutions m p.steps p.slotCount = solutions m p'.steps p'.slotCount)
      ∧ p.columns = p'.columns
      ∧ (p.projection = p'.projection → ∀ s : Session, s.Calm →
        ∃ table, (Plan.select p).execute s = (.ok table, s)
          ∧ (Plan.select p').execute s = (.ok table, s)) := by
  obtain ⟨hp, hcolumns⟩ := SelectPlan.sound_and_named_of_plan hcompile hplan
  obtain ⟨hp', hcolumns'⟩ := SelectPlan.sound_and_named_of_plan hcompile' hplan'
  have halike := SelectPlan.alike_of_explain hcolumns hcolumns' hp.steps_ne_nil hp'.steps_ne_nil h
  refine ⟨halike.solutions_eq hp hp', halike.columns, fun hprojection s hs =>
    ⟨p.fullAnswer s.store.memory, hp.execute_of_calm hs, ?_⟩⟩
  rw [halike.fullAnswer_eq hp hp' hprojection]
  exact hp'.execute_of_calm hs

/-- A variable that is not asked for and a wildcard, a node with quotes and one
without them: the queries are explained by the same text, and they have the
same answer. -/
theorem answer_eq_of_explain_eq_of_wildcard :
    let m : MemoryStore :=
      { name := "people", triples := Indexes.insert ∅ ⟨⟨"a"⟩, ⟨"knows"⟩, ⟨"b"⟩⟩ }
    let s := Session.begin { memory := m }
    let tree := "Project columns=?x store=people\n  Scan pattern=($0, knows, $1) est=1 channel=4\n"
    ∃ q q' p p', Command.compile "SELECT ?x WHERE (?x, knows, ?y)" = .ok (.select q)
      ∧ Command.compile "SELECT ?x WHERE (?x, \"knows\", ?)" = .ok (.select q')
      ∧ q.plan 4 s = .ok p s ∧ q'.plan 4 s = .ok p' s
      ∧ (Plan.select p).explain m.name = tree ∧ (Plan.select p').explain m.name = tree
      ∧ p.projection = p'.projection
      ∧ ∃ table, (Plan.select p).execute s = (.ok table, s)
        ∧ (Plan.select p').execute s = (.ok table, s) := by
  intro m s tree
  have hs : s.Calm := Session.calm_begin m .indexed
  have hplanned : ∀ text, ((planned? text 4 m .indexed).bind fun r => r.1.select?).map
        (fun p => ((Plan.select p).explain m.name, p.projection)) = some (tree, [0]) →
      ∃ q p, Command.compile text = .ok (.select q) ∧ q.plan 4 s = .ok p s
        ∧ (Plan.select p).explain m.name = tree ∧ p.projection = [0] := by
    intro text hrun
    obtain ⟨p, hp, htold⟩ := Option.map_eq_some_iff.mp hrun
    obtain ⟨q, s', hcompile, hplan⟩ := exists_query_of_planned? hp
    obtain ⟨rfl, -⟩ := planned_of_plan hs hplan
    obtain ⟨hexplain, hprojection⟩ := Prod.mk.inj htold
    exact ⟨q, p, hcompile, hplan, hexplain, hprojection⟩
  obtain ⟨q, p, hcompile, hplan, hexplain, hprojection⟩ :=
    hplanned "SELECT ?x WHERE (?x, knows, ?y)" (by decide +kernel)
  obtain ⟨q', p', hcompile', hplan', hexplain', hprojection'⟩ :=
    hplanned "SELECT ?x WHERE (?x, \"knows\", ?)" (by decide +kernel)
  have hprojections := hprojection.trans hprojection'.symm
  exact ⟨q, q', p, p', hcompile, hcompile', hplan, hplan', hexplain, hexplain', hprojections,
    (answer_eq_of_explain_eq hcompile hcompile' hplan hplan' m.name
      (hexplain.trans hexplain'.symm)).2.2 hprojections s hs⟩

/-- **The explanation does not tell which slots the columns show**: these two
queries have the same explanation, since slots are numbered as they appear and
columns go by their names, but one asks for subjects and the other for
objects. -/
theorem answer_ne_of_swapped_slots :
    let m : MemoryStore :=
      { name := "default", triples := Indexes.insert ∅ ⟨⟨"x"⟩, ⟨"p"⟩, ⟨"y"⟩⟩ }
    ∃ p p' s s', planned? "SELECT ?a WHERE (?a, p, ?b)" 4 m .indexed = some (p, s)
      ∧ planned? "SELECT ?a WHERE (?b, p, ?a)" 4 m .indexed = some (p', s')
      ∧ p.explain m.name = p'.explain m.name
      ∧ p.fingerprint m.name = p'.fingerprint m.name
      ∧ (p.execute s).1 = .ok ⟨["?a"], [[⟨"x"⟩]]⟩
      ∧ (p'.execute s').1 = .ok ⟨["?a"], [[⟨"y"⟩]]⟩ := by
  intro m
  let tree := "Project columns=?a store=default\n  Scan pattern=($0, p, $1) est=1 channel=4\n"
  have hrun : (planned? "SELECT ?a WHERE (?a, p, ?b)" 4 m .indexed).map
      (fun r => (r.1.explain m.name, (r.1.execute r.2).1))
        = some (tree, .ok ⟨["?a"], [[⟨"x"⟩]]⟩) := by
    decide +kernel
  have hrun' : (planned? "SELECT ?a WHERE (?b, p, ?a)" 4 m .indexed).map
      (fun r => (r.1.explain m.name, (r.1.execute r.2).1))
        = some (tree, .ok ⟨["?a"], [[⟨"y"⟩]]⟩) := by
    decide +kernel
  obtain ⟨⟨p, s⟩, hplanned, hp⟩ := Option.map_eq_some_iff.mp hrun
  obtain ⟨⟨p', s'⟩, hplanned', hp'⟩ := Option.map_eq_some_iff.mp hrun'
  obtain ⟨hexplain, hanswer⟩ := Prod.mk.inj hp
  obtain ⟨hexplain', hanswer'⟩ := Prod.mk.inj hp'
  have heq : p.explain m.name = p'.explain m.name := hexplain.trans hexplain'.symm
  exact ⟨p, p', s, s', hplanned, hplanned', heq, by rw [Plan.fingerprint, heq, Plan.fingerprint],
    hanswer, hanswer'⟩

end TripleScript
