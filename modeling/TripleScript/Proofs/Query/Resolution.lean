import TripleScript.Proofs.Query.Columns

/-!
# Resolving variables loses nothing

For a reader every position of a query has a label: a node, or the name of a
column. A variable names its column itself, and the wildcards are numbered
from left to right (`labels`). The columns of a query are then the names among
its labels, each where it first appears (`columnNames`), and a position that
is no node has the slot with its name (`SlotTerm.ofLabel`).

So the slot table after some terms is known without walking over them
(`SlotTable.after`), and so are their slot terms (`slotTerms`), as long as no
variable has a name kept for wildcards (`Unreserved`). One step of the walk is
one term more (`SlotTable.resolve_after`), and the whole walk is all of them
(`SlotTable.resolvePatterns_after`). What can go wrong is only a reserved name
on the way, and at the end a column that cannot be shown
(`SlotTable.project_eq_ok_iff`).
-/

namespace TripleScript

/-! ## Labels -/

/-- **What a term is for a reader**, with `k` wildcards before it: its node, or
the name of its column. -/
def Term.label (k : ℕ) : Term → Node ⊕ String
  | node n => .inl n
  | var name => .inr s!"?{name}"
  | wildcard => .inr s!"?_{k + 1}"

/-- The labels of some terms in a row. -/
def labels (ts : List Term) : List (Node ⊕ String) :=
  ts.mapIdx fun j t => t.label ((ts.take j).count .wildcard)

/-- **The names of the columns**, in the order of first appearance. -/
def columnNames (ts : List Term) : List String :=
  ((labels ts).filterMap Sum.getRight?).eraseDups

/-- No variable has a name that is kept for wildcards. -/
def Unreserved (ts : List Term) : Prop :=
  ∀ name, .var name ∈ ts → isReserved name = false

section Labels

variable {ts us : List Term} {t : Term}

theorem labels_append_singleton (ts : List Term) (t : Term) :
    labels (ts ++ [t]) = labels ts ++ [t.label (ts.count .wildcard)] := by
  rw [labels, List.mapIdx_append, labels]
  congr 1
  · refine List.mapIdx_eq_mapIdx_iff.mpr fun j hj => ?_
    rw [List.take_append_of_le_length hj.le]
  · simp

/-- A node has no column. -/
theorem columnNames_append_node (ts : List Term) (n : Node) :
    columnNames (ts ++ [.node n]) = columnNames ts := by
  rw [columnNames, labels_append_singleton, List.filterMap_append, Term.label]
  exact congrArg List.eraseDups (List.append_nil _)

/-- A name adds a column if it is new. -/
theorem columnNames_append_of_label (ts : List Term) {column : String}
    (h : t.label (ts.count .wildcard) = .inr column) :
    columnNames (ts ++ [t])
      = if column ∈ columnNames ts then columnNames ts else columnNames ts ++ [column] := by
  have hnames : (labels (ts ++ [t])).filterMap Sum.getRight?
      = (labels ts).filterMap Sum.getRight? ++ [column] := by
    rw [labels_append_singleton, h, List.filterMap_append]
    rfl
  simp only [columnNames, hnames, eraseDups_append_singleton, List.mem_eraseDups]

/-- Columns are only added. -/
theorem columnNames_prefix (ts : List Term) (t : Term) :
    columnNames ts <+: columnNames (ts ++ [t]) := by
  rw [columnNames, columnNames, labels_append_singleton, List.filterMap_append]
  exact eraseDups_prefix_append _ _

theorem getElem?_labels (ts : List Term) (j : ℕ) :
    (labels ts)[j]? = ts[j]?.map (·.label ((ts.take j).count .wildcard)) :=
  List.getElem?_mapIdx

theorem nodup_columnNames (ts : List Term) : (columnNames ts).Nodup :=
  nodup_eraseDups _

theorem mem_columnNames {column : String} :
    column ∈ columnNames ts ↔ .inr column ∈ labels ts := by
  rw [columnNames, List.mem_eraseDups, List.mem_filterMap]
  constructor
  · rintro ⟨label, hmem, hright⟩
    exact Sum.getRight?_eq_some_iff.mp hright ▸ hmem
  · exact fun hmem => ⟨_, hmem, rfl⟩

theorem Unreserved.of_append (h : Unreserved (ts ++ us)) : Unreserved ts ∧ Unreserved us :=
  ⟨fun name hmem => h name (List.mem_append_left _ hmem),
    fun name hmem => h name (List.mem_append_right _ hmem)⟩

/-- Of an element that stands somewhere there are fewer before than behind
it. -/
theorem count_take_lt {j j' : ℕ} (h : ts[j]? = some t) (hlt : j < j') :
    (ts.take j).count t < (ts.take j').count t := by
  have hsucc : ts.take (j + 1) = ts.take j ++ [t] := by rw [List.take_add_one, h]; rfl
  calc (ts.take j).count t < (ts.take (j + 1)).count t := by
        rw [hsucc, List.count_append, List.count_singleton_self]; omega
    _ ≤ (ts.take j').count t :=
        (List.take_sublist_take_left (Nat.succ_le_of_lt hlt)).count_le t

/-- **The label of a wildcard is its own.** -/
theorem eq_of_getElem?_labels_wildcard (hts : Unreserved ts) {j j' : ℕ}
    (hj : ts[j]? = some .wildcard) (h : (labels ts)[j']? = (labels ts)[j]?) : j' = j := by
  simp only [getElem?_labels, hj, Option.map_some, Option.map_eq_some_iff] at h
  obtain ⟨t, hj', hlabel⟩ := h
  cases t with
  | node n => cases hlabel
  | var name =>
    have hname := hts name (List.mem_of_getElem? hj')
    exact absurd (Sum.inr.inj hlabel).symm (columnName_ne_wildcard hname _)
  | wildcard =>
    have hcount := Nat.succ_injective (SlotTable.wildcardName_inj.mp (Sum.inr.inj hlabel))
    rcases lt_trichotomy j' j with hlt | heq | hlt
    · exact absurd hcount (count_take_lt hj' hlt).ne
    · exact heq
    · exact absurd hcount (count_take_lt hj hlt).ne'

/-- The name of the next wildcard is new. -/
theorem wildcard_notMem_columnNames (hts : Unreserved ts) :
    s!"?_{ts.count .wildcard + 1}" ∉ columnNames ts := by
  intro hmem
  -- one wildcard more would share its label with a term before it
  obtain ⟨j, hj⟩ := List.mem_iff_getElem?.mp (mem_columnNames.mp hmem)
  have hlt : j < (labels ts).length := (List.getElem?_eq_some_iff.mp hj).1
  have hlast : (ts ++ [.wildcard])[ts.length]? = some Term.wildcard := List.getElem?_concat_length
  have hall : Unreserved (ts ++ [.wildcard]) := fun name hname =>
    hts name ((List.mem_append.mp hname).resolve_right (by simp))
  have heq : (labels (ts ++ [.wildcard]))[j]? = (labels (ts ++ [.wildcard]))[ts.length]? := by
    rw [getElem?_labels _ ts.length, hlast, labels_append_singleton,
      List.getElem?_append_left hlt, hj, List.take_left]
    rfl
  have hjlen := eq_of_getElem?_labels_wildcard hall hlast heq
  rw [labels, List.length_mapIdx, hjlen] at hlt
  exact hlt.false

/-- A column is named by the label of some term. -/
theorem mem_columnNames_iff_exists {column : String} :
    column ∈ columnNames ts ↔ ∃ (j : ℕ) (t : Term), ts[j]? = some t
      ∧ t.label ((ts.take j).count .wildcard) = .inr column := by
  rw [mem_columnNames, List.mem_iff_getElem?]
  simp only [getElem?_labels, Option.map_eq_some_iff]

/-- A variable of some terms names one of their columns, and no wildcard does. -/
theorem mem_columnNames_iff_var {name : String} (hr : isReserved name = false) :
    s!"?{name}" ∈ columnNames ts ↔ .var name ∈ ts := by
  rw [mem_columnNames_iff_exists, List.mem_iff_getElem?]
  constructor
  · rintro ⟨j, t, hj, hlabel⟩
    cases t with
    | node n => cases hlabel
    | var other => exact ⟨j, columnName_inj.mp (Sum.inr.inj hlabel) ▸ hj⟩
    | wildcard => exact absurd (Sum.inr.inj hlabel) (columnName_ne_wildcard hr _)
  · rintro ⟨j, hj⟩
    exact ⟨j, _, hj, rfl⟩

/-- There is a column where there is a variable or a wildcard. -/
theorem columnNames_ne_nil_iff :
    columnNames ts ≠ [] ↔ (∃ name, .var name ∈ ts) ∨ .wildcard ∈ ts := by
  simp only [List.mem_iff_getElem?]
  constructor
  · intro h
    obtain ⟨column, hcolumn⟩ := List.exists_mem_of_ne_nil _ h
    obtain ⟨j, t, hj, hlabel⟩ := mem_columnNames_iff_exists.mp hcolumn
    cases t with
    | node n => cases hlabel
    | var name => exact .inl ⟨name, j, hj⟩
    | wildcard => exact .inr ⟨j, hj⟩
  · rintro (⟨name, j, hj⟩ | ⟨j, hj⟩)
    · exact List.ne_nil_of_mem (mem_columnNames_iff_exists.mpr ⟨j, _, hj, rfl⟩)
    · exact List.ne_nil_of_mem (mem_columnNames_iff_exists.mpr ⟨j, _, hj, rfl⟩)

end Labels

/-! ## Slot terms -/

/-- The slot term that a reader labels so: a column is found by its name. -/
def SlotTerm.ofLabel (columns : List String) : Node ⊕ String → SlotTerm
  | .inl n => .const n
  | .inr column => .slot (columns.idxOf column)

/-- **The slot terms of some terms.** -/
def slotTerms (ts : List Term) : List SlotTerm :=
  (labels ts).map (SlotTerm.ofLabel (columnNames ts))

/-- A further term leaves the slot terms before it as they are. -/
theorem slotTerms_append_singleton (ts : List Term) (t : Term) :
    slotTerms (ts ++ [t]) = slotTerms ts
      ++ [SlotTerm.ofLabel (columnNames (ts ++ [t])) (t.label (ts.count .wildcard))] := by
  rw [slotTerms, labels_append_singleton, List.map_append, List.map_singleton, slotTerms]
  refine congrArg (· ++ _) (List.map_congr_left fun label hlabel => ?_)
  cases label with
  | inl n => rfl
  | inr column =>
    obtain ⟨more, hmore⟩ := columnNames_prefix ts t
    rw [SlotTerm.ofLabel, SlotTerm.ofLabel, ← hmore,
      List.idxOf_append_of_mem (mem_columnNames.mpr hlabel)]

theorem getElem?_slotTerms (ts : List Term) (j : ℕ) :
    (slotTerms ts)[j]? = (labels ts)[j]?.map (SlotTerm.ofLabel (columnNames ts)) :=
  List.getElem?_map

/-- **A slot is told by its label.** -/
theorem getElem?_labels_of_slotTerms {ts : List Term} {j i : ℕ}
    (h : (slotTerms ts)[j]? = some (.slot i)) :
    ∃ column, (labels ts)[j]? = some (.inr column) ∧ (columnNames ts)[i]? = some column := by
  rw [getElem?_slotTerms, Option.map_eq_some_iff] at h
  obtain ⟨label, hlabel, hslot⟩ := h
  cases label with
  | inl n => cases hslot
  | inr column =>
    cases hslot
    have hmem := mem_columnNames.mpr (List.mem_of_getElem? hlabel)
    exact ⟨column, hlabel, List.getElem?_idxOf hmem⟩

/-- **A term labelled with a name** has the slot of this name. -/
theorem exists_slot_of_label {ts : List Term} {t : Term} {j : ℕ} {column : String}
    (hj : ts[j]? = some t) (h : t.label ((ts.take j).count .wildcard) = .inr column) :
    ∃ i, (slotTerms ts)[j]? = some (.slot i) ∧ (columnNames ts)[i]? = some column := by
  have hmem := mem_columnNames_iff_exists.mpr ⟨j, t, hj, h⟩
  refine ⟨_, ?_, List.getElem?_idxOf hmem⟩
  rw [getElem?_slotTerms, getElem?_labels, hj, Option.map_some, h]
  rfl

/-! ## The walk -/

namespace SlotTable

/-- **The table after some terms.** -/
def after (ts : List Term) : SlotTable :=
  ⟨columnNames ts, ts.count .wildcard⟩

/-- The slot of a variable is that of its name. -/
theorem find?_eq_ite (table : SlotTable) (name : String) :
    table.find? name = if s!"?{name}" ∈ table.names
      then some (table.names.idxOf s!"?{name}") else none := by
  split
  case isTrue h =>
    obtain ⟨i, hi⟩ := Option.isSome_iff_exists.mp (List.isSome_idxOf?.mpr h)
    rw [find?, hi, List.idxOf_eq_getD_idxOf?, hi, Option.getD_some]
  case isFalse h => exact List.idxOf?_eq_none_iff.mpr h

/-- **One step of the walk** is one term more. -/
theorem resolve_after {ts : List Term} {t : Term} (h : Unreserved (ts ++ [t])) :
    (after ts).resolve t
      = .ok (SlotTerm.ofLabel (columnNames (ts ++ [t])) (t.label (ts.count .wildcard)),
          after (ts ++ [t])) := by
  cases t with
  | node n =>
    rw [resolve, after, after, columnNames_append_node]
    simp [Term.label, SlotTerm.ofLabel]
  | var name =>
    have hr : isReserved name = false := h name (by simp)
    have hnames := columnNames_append_of_label ts (t := .var name) rfl
    have hcount : (ts ++ [Term.var name]).count Term.wildcard = ts.count Term.wildcard := by simp
    rw [resolve, if_neg (Bool.eq_false_iff.mp hr), find?_eq_ite, after, after, hcount, hnames]
    by_cases hmem : s!"?{name}" ∈ columnNames ts
    · rw [if_pos hmem, if_pos hmem]
      rfl
    · rw [if_neg hmem, if_neg hmem, Term.label, SlotTerm.ofLabel,
        List.idxOf_append_of_notMem hmem, List.idxOf_cons_self]
      rfl
  | wildcard =>
    have hnew := wildcard_notMem_columnNames h.of_append.1
    have hnames := columnNames_append_of_label ts (t := .wildcard) rfl
    rw [if_neg hnew] at hnames
    have hcount : (ts ++ [Term.wildcard]).count Term.wildcard = ts.count Term.wildcard + 1 := by
      simp
    rw [resolve, after, after, hcount, hnames, Term.label, SlotTerm.ofLabel,
      List.idxOf_append_of_notMem hnew, List.idxOf_cons_self]
    rfl

/-- The terms of a pattern are resolved from left to right. -/
theorem resolvePattern_after {ts : List Term} {p : TriplePattern}
    (h : Unreserved (ts ++ p.terms)) :
    ∃ sp, (after ts).resolvePattern p = .ok (sp, after (ts ++ p.terms))
      ∧ slotTerms (ts ++ p.terms) = slotTerms ts ++ sp.terms := by
  have hterms : ts ++ p.terms = ts ++ [p.subject] ++ [p.predicate] ++ [p.object] := by
    simp [TriplePattern.terms]
  rw [hterms] at h ⊢
  have hs := resolve_after h.of_append.1.of_append.1
  have hp := resolve_after h.of_append.1
  have ho := resolve_after h
  refine ⟨⟨_, _, _⟩, bind_eq_ok_iff.mpr ⟨_, hs, bind_eq_ok_iff.mpr ⟨_, hp,
    bind_eq_ok_iff.mpr ⟨_, ho, rfl⟩⟩⟩, ?_⟩
  rw [slotTerms_append_singleton, slotTerms_append_singleton, slotTerms_append_singleton,
    List.append_assoc, List.append_assoc]
  rfl

/-- **The walk over all patterns** takes all their terms. -/
theorem resolvePatterns_after (ts : List Term) {ps : List TriplePattern}
    (h : Unreserved (ts ++ ps.flatMap TriplePattern.terms)) :
    ∃ sps, (after ts).resolvePatterns ps
        = .ok (sps, after (ts ++ ps.flatMap TriplePattern.terms))
      ∧ sps.length = ps.length
      ∧ slotTerms (ts ++ ps.flatMap TriplePattern.terms)
          = slotTerms ts ++ sps.flatMap SlotPattern.terms := by
  -- the terms before are what changes along the patterns
  induction ps generalizing ts with
  | nil => exact ⟨[], by simp [resolvePatterns], rfl, by simp⟩
  | cons p ps ih =>
    rw [List.flatMap_cons, ← List.append_assoc] at h ⊢
    obtain ⟨sp, hsp, hterms⟩ := resolvePattern_after h.of_append.1
    obtain ⟨sps, hsps, hlength, hall⟩ := ih _ h
    refine ⟨sp :: sps, ?_, congrArg Nat.succ hlength, ?_⟩
    · exact bind_eq_ok_iff.mpr ⟨_, hsp, bind_eq_ok_iff.mpr ⟨_, hsps, rfl⟩⟩
    · rw [hall, hterms, List.append_assoc, List.flatMap_cons]

/-- A reserved name ends the walk. -/
theorem unreserved_of_resolve {table table' : SlotTable} {t : Term} {term : SlotTerm}
    (h : table.resolve t = .ok (term, table')) : Unreserved [t] := by
  rintro name hmem
  obtain rfl := List.mem_singleton.mp hmem
  rw [resolve] at h
  split at h
  case isTrue => cases h
  case isFalse hr => exact Bool.eq_false_iff.mpr hr

theorem unreserved_of_resolvePatterns {table table' : SlotTable} {ps : List TriplePattern}
    {sps : List SlotPattern} (h : table.resolvePatterns ps = .ok (sps, table')) :
    Unreserved (ps.flatMap TriplePattern.terms) := by
  induction ps generalizing table table' sps with
  | nil => exact fun _ hmem => absurd hmem List.not_mem_nil
  | cons p ps ih =>
    obtain ⟨⟨sp, table₁⟩, hp, h⟩ := bind_eq_ok_iff.mp h
    obtain ⟨⟨sps', table₂⟩, hps, -⟩ := bind_eq_ok_iff.mp h
    obtain ⟨⟨subject, tableₛ⟩, hs, hp⟩ := bind_eq_ok_iff.mp hp
    obtain ⟨⟨predicate, tableₚ⟩, hq, hp⟩ := bind_eq_ok_iff.mp hp
    obtain ⟨⟨object, tableₒ⟩, ho, -⟩ := bind_eq_ok_iff.mp hp
    intro name hmem
    simp only [List.flatMap_cons, TriplePattern.terms, List.cons_append, List.nil_append,
      List.mem_cons] at hmem
    rcases hmem with hmem | hmem | hmem | hmem
    · exact unreserved_of_resolve hs name (List.mem_singleton.mpr hmem)
    · exact unreserved_of_resolve hq name (List.mem_singleton.mpr hmem)
    · exact unreserved_of_resolve ho name (List.mem_singleton.mpr hmem)
    · exact ih hps name hmem

/-! ## Columns -/

/-- The slot that a variable is shown from. -/
def slotOf (table : SlotTable) (name : String) : ℕ :=
  table.names.idxOf s!"?{name}"

/-- **Columns can be asked for by name** if the names are those of variables in
the table and none comes twice; then they are shown from the slots of the
variables. -/
theorem columns_eq_ok_iff {table : SlotTable} {chosen slots : List ℕ} {names : List String}
    (hchosen : chosen.Nodup) :
    table.columns chosen names = .ok slots
      ↔ (∀ name ∈ names, isReserved name = false ∧ s!"?{name}" ∈ table.names)
        ∧ slots = chosen ++ names.map table.slotOf ∧ slots.Nodup := by
  induction names generalizing chosen with
  | nil =>
    rw [columns, Except.ok.injEq, List.map_nil, List.append_nil]
    constructor
    · rintro rfl
      exact ⟨List.forall_mem_nil _, rfl, hchosen⟩
    · rintro ⟨-, rfl, -⟩
      rfl
  | cons name names ih =>
    have hassoc : chosen ++ (name :: names).map table.slotOf
        = chosen ++ [table.slotOf name] ++ names.map table.slotOf := by simp
    rw [List.forall_mem_cons, columns, find?_eq_ite, hassoc]
    by_cases hr : isReserved name = true
    · rw [if_pos hr]
      exact iff_of_false (by rintro ⟨⟩) fun h => absurd hr (Bool.eq_false_iff.mp h.1.1.1)
    rw [if_neg hr]
    by_cases hmem : s!"?{name}" ∈ table.names
    · rw [if_pos hmem]
      dsimp only
      rw [← slotOf]
      by_cases htwice : table.slotOf name ∈ chosen
      · rw [if_pos (List.contains_iff_mem.mpr htwice)]
        refine iff_of_false (by rintro ⟨⟩) ?_
        rintro ⟨-, rfl, hnodup⟩
        exact List.disjoint_right.mp (List.nodup_append'.mp hnodup.of_append_left).2.2
          (List.mem_singleton_self _) htwice
      · rw [if_neg (mt List.contains_iff_mem.mp htwice),
          ih (nodup_append_singleton hchosen htwice)]
        simp only [hmem, Bool.eq_false_iff.mpr hr, and_self, true_and]
    · rw [if_neg hmem]
      exact iff_of_false (by rintro ⟨⟩) fun h => hmem h.1.1.2

/-- **All columns can be asked for** if there is one; then every slot is shown
in its order. -/
theorem project_all_eq_ok_iff {table : SlotTable} {slots : List ℕ} :
    table.project .all = .ok slots
      ↔ table.names ≠ [] ∧ slots = List.range table.names.length := by
  rw [project]
  by_cases hempty : table.names = []
  · rw [if_pos (List.isEmpty_iff.mpr hempty)]
    exact iff_of_false (by rintro ⟨⟩) fun h => h.1 hempty
  · rw [if_neg (mt List.isEmpty_iff.mp hempty), Except.ok.injEq]
    exact ⟨fun h => ⟨hempty, h.symm⟩, fun h => h.2.symm⟩

end SlotTable

/-! ## Queries -/

/-- The variables asked for by name. -/
def Projection.names : Projection → List String
  | all => []
  | vars names => names

/-- The terms of a query, pattern by pattern. -/
def SelectStatement.terms (q : SelectStatement) : List Term :=
  q.patterns.flatMap TriplePattern.terms

/-- The slot terms of a query, pattern by pattern. -/
def Query.terms (c : Query) : List SlotTerm :=
  c.patterns.flatMap SlotPattern.terms

/-- **A query that makes sense.** -/
structure SelectStatement.Sensible (q : SelectStatement) : Prop where
  /-- It has no more patterns than a query may have. -/
  patterns : q.patterns.length ≤ 64
  /-- No variable of it begins with an underscore. -/
  unreserved : ∀ name, .var name ∈ q.terms ∨ name ∈ q.projection.names →
    name.toList.head? ≠ some '_'
  /-- Some pattern has the variables asked for. -/
  bound : ∀ name ∈ q.projection.names, .var name ∈ q.terms
  /-- None of them is asked for twice. -/
  nodup : q.projection.names.Nodup
  /-- All columns are asked for only where there is one. -/
  open_of_all : q.projection = .all →
    (∃ name, .var name ∈ q.terms) ∨ .wildcard ∈ q.terms

/-- The term that has a column of this name. Behind the question mark stands
a variable, or a name that is kept for wildcards. -/
def termOfColumn (column : String) : Term :=
  let name := String.ofList (column.toList.drop 1)
  if isReserved name then .wildcard else .var name

/-- The term of a slot term, where the slots have these names. -/
def SlotTerm.term (slots : List String) : SlotTerm → Term
  | const n => .node n
  | slot i => termOfColumn (slots.getD i "")

/-- **The variables of a query are resolved** in its compiled form. -/
structure Query.Resolves (q : SelectStatement) (c : Query) : Prop where
  /-- The slots are named after the columns, in the order in which these first
  appear. -/
  slots : c.slots = columnNames q.terms
  /-- No two slots have the same name. -/
  nodup_slots : c.slots.Nodup
  /-- A wildcard with `k` others before it has the slot named after `k + 1`,
  and no other position of the query has it. -/
  wildcard : ∀ j : ℕ, q.terms[j]? = some .wildcard → ∃ i, c.terms[j]? = some (SlotTerm.slot i)
    ∧ c.slots[i]? = some s!"?_{(q.terms.take j).count .wildcard + 1}"
    ∧ ∀ j', c.terms[j']? = some (SlotTerm.slot i) → j' = j
  /-- A variable has the slot named after it. -/
  var : ∀ (j : ℕ) (name : String), q.terms[j]? = some (.var name) →
    ∃ i, c.terms[j]? = some (SlotTerm.slot i) ∧ c.slots[i]? = some s!"?{name}"
  /-- Every slot is in some pattern. -/
  mem_slots : ∀ i < c.slots.length, ∃ sp ∈ c.patterns, i ∈ sp.slots
  /-- Names in the place of slots give back the patterns, term by term. -/
  terms : c.patterns.map (fun sp => sp.terms.map (SlotTerm.term c.slots))
    = q.patterns.map TriplePattern.terms
  /-- There is a column. -/
  projection_ne_nil : c.projection ≠ []
  /-- No slot is shown twice. -/
  nodup_projection : c.projection.Nodup
  /-- Only slots are shown. -/
  projection_lt : ∀ i ∈ c.projection, i < c.slots.length
  /-- All columns are all slots in their order. -/
  projection_all : q.projection = .all → c.projection = List.range c.slots.length
  /-- Columns asked for by name are the slots with these names. -/
  projection_vars : ∀ names, q.projection = .vars names →
    c.projection.map (c.slots[·]?) = names.map fun name => some s!"?{name}"

/-- What a column stands for is told by what is behind the question mark. -/
theorem termOfColumn_append (name : String) :
    termOfColumn ("?" ++ name) = if isReserved name then .wildcard else .var name := by
  have hname : String.ofList (("?" ++ name).toList.drop 1) = name := by
    rw [String.toList_append]
    exact String.ofList_toList
  rw [termOfColumn]
  simp only [hname]

theorem termOfColumn_wildcard (k : ℕ) : termOfColumn s!"?_{k}" = .wildcard := by
  rw [wildcardName_eq, termOfColumn_append, if_pos (isReserved_append _)]

/-- **Names in the place of slots give back the terms.** -/
theorem map_term_slotTerms {ts : List Term} (h : Unreserved ts) :
    (slotTerms ts).map (SlotTerm.term (columnNames ts)) = ts := by
  refine List.ext_getElem? fun j => ?_
  rw [List.getElem?_map]
  cases hj : ts[j]? with
  | none => rw [getElem?_slotTerms, getElem?_labels, hj]; rfl
  | some t =>
    cases t with
    | node n => rw [getElem?_slotTerms, getElem?_labels, hj]; rfl
    | var name =>
      obtain ⟨i, hterm, hi⟩ := exists_slot_of_label hj rfl
      rw [hterm, Option.map_some, SlotTerm.term, List.getD_eq_getElem?_getD, hi]
      have hr : isReserved name = false := h name (List.mem_of_getElem? hj)
      exact congrArg some ((termOfColumn_append name).trans (if_neg (Bool.eq_false_iff.mp hr)))
    | wildcard =>
      obtain ⟨i, hterm, hi⟩ := exists_slot_of_label hj rfl
      rw [hterm, Option.map_some, SlotTerm.term, List.getD_eq_getElem?_getD, hi]
      exact congrArg some (termOfColumn_wildcard _)

theorem isReserved_eq_false_iff {name : String} :
    isReserved name = false ↔ name.toList.head? ≠ some '_' := by
  rw [isReserved, beq_eq_false_iff_ne]

/-- **Columns can be shown** if the variables asked for are there, each is asked
for once, and there is some column to be shown. -/
theorem SlotTable.exists_project_iff {ts : List Term} {projection : Projection} :
    (∃ slots, (after ts).project projection = .ok slots)
      ↔ (∀ name ∈ projection.names, isReserved name = false ∧ .var name ∈ ts)
        ∧ projection.names.Nodup
        ∧ (projection = .all → (∃ name, .var name ∈ ts) ∨ .wildcard ∈ ts) := by
  cases projection with
  | all =>
    simp only [project_all_eq_ok_iff, Projection.names, after]
    rw [← columnNames_ne_nil_iff]
    simp
  | vars names =>
    simp only [project, columns_eq_ok_iff List.nodup_nil, Projection.names, after,
      List.nil_append]
    have hmem : (∀ name ∈ names, isReserved name = false ∧ s!"?{name}" ∈ columnNames ts)
        ↔ ∀ name ∈ names, isReserved name = false ∧ .var name ∈ ts :=
      forall₂_congr fun name _ => and_congr_right fun hr => mem_columnNames_iff_var hr
    rw [← hmem]
    constructor
    · rintro ⟨slots, hnames, rfl, hnodup⟩
      exact ⟨hnames, hnodup.of_map, by rintro ⟨⟩⟩
    · rintro ⟨hnames, hnodup, -⟩
      refine ⟨_, hnames, rfl, hnodup.map_on fun name hname other _ heq => ?_⟩
      exact columnName_inj.mp ((List.idxOf_inj (hnames name hname).2).mp heq)

/-- **What compiles** has its terms resolved and its columns shown. -/
theorem resolved_of_compile {q : SelectStatement} {c : Query} (h : q.compile = .ok c) :
    q.patterns.length ≤ maxPatterns ∧ Unreserved q.terms
      ∧ c.patterns.length = q.patterns.length ∧ c.terms = slotTerms q.terms
      ∧ c.slots = columnNames q.terms
      ∧ (SlotTable.after q.terms).project q.projection = .ok c.projection := by
  have hlength : q.patterns.length ≤ maxPatterns := by
    unfold SelectStatement.compile at h
    split at h
    case isTrue => cases h
    case isFalse hle => exact Nat.le_of_not_lt hle
  obtain ⟨table, hpatterns, hprojection, hslots⟩ := exists_table_of_compile h
  have hunreserved : Unreserved q.terms := SlotTable.unreserved_of_resolvePatterns hpatterns
  obtain ⟨sps, hsps, hsame, hterms⟩ := SlotTable.resolvePatterns_after [] hunreserved
  obtain ⟨rfl, rfl⟩ := Prod.mk.inj (Except.ok.inj (hpatterns.symm.trans hsps))
  exact ⟨hlength, hunreserved, hsame, hterms.symm, hslots, hprojection⟩

/-- What can be resolved and shown compiles. -/
theorem exists_compile_of_project {q : SelectStatement} (hlength : q.patterns.length ≤ maxPatterns)
    (hunreserved : Unreserved q.terms) {projection : List ℕ}
    (h : (SlotTable.after q.terms).project q.projection = .ok projection) :
    ∃ c, q.compile = .ok c := by
  obtain ⟨sps, hsps, -, -⟩ := SlotTable.resolvePatterns_after [] hunreserved
  refine ⟨⟨columnNames q.terms, sps, projection, q.distinct, q.limit⟩, ?_⟩
  unfold SelectStatement.compile
  rw [if_neg (Nat.not_lt.mpr hlength)]
  exact bind_eq_ok_iff.mpr ⟨_, hsps, bind_eq_ok_iff.mpr ⟨_, h, rfl⟩⟩

/-- **A query compiles if and only if it makes sense.** -/
theorem exists_compile_iff_sensible {q : SelectStatement} :
    (∃ c, q.compile = .ok c) ↔ q.Sensible := by
  constructor
  · rintro ⟨c, h⟩
    obtain ⟨hlength, hunreserved, -, -, -, hprojection⟩ := resolved_of_compile h
    obtain ⟨hnames, hnodup, hall⟩ := SlotTable.exists_project_iff.mp ⟨_, hprojection⟩
    refine ⟨hlength, fun name hname => isReserved_eq_false_iff.mp ?_,
      fun name hname => (hnames name hname).2, hnodup, hall⟩
    exact hname.elim (hunreserved name) fun hmem => (hnames name hmem).1
  · intro h
    have hunreserved : ∀ name, .var name ∈ q.terms ∨ name ∈ q.projection.names →
        isReserved name = false := fun name hname =>
      isReserved_eq_false_iff.mpr (h.unreserved name hname)
    obtain ⟨projection, hprojection⟩ := SlotTable.exists_project_iff.mpr
      ⟨fun name hname => ⟨hunreserved name (.inr hname), h.bound name hname⟩, h.nodup,
        h.open_of_all⟩
    exact exists_compile_of_project h.patterns (fun name hname => hunreserved name (.inl hname))
      hprojection

/-- Patterns with the same terms in a row have the same terms each. -/
theorem Query.map_terms_eq {q : SelectStatement} {c : Query} {f : SlotTerm → Term}
    (hlength : c.patterns.length = q.patterns.length) (h : c.terms.map f = q.terms) :
    c.patterns.map (fun sp => sp.terms.map f) = q.patterns.map TriplePattern.terms := by
  refine List.eq_iff_flatten_eq.mpr ⟨?_, ?_⟩
  · rw [← List.flatMap_def, ← List.flatMap_def, ← List.map_flatMap]
    exact h
  · -- every pattern has three terms
    rw [List.map_map, List.map_map]
    have hx : c.patterns.map (List.length ∘ fun sp => sp.terms.map f)
        = c.patterns.map fun _ => 3 := List.map_congr_left fun _ _ => rfl
    have hy : q.patterns.map (List.length ∘ TriplePattern.terms)
        = q.patterns.map fun _ => 3 := List.map_congr_left fun _ _ => rfl
    rw [hx, hy, List.map_const', List.map_const', hlength]

/-- The column of a wildcard is shown nowhere else in the patterns. -/
theorem exists_own_slot_of_wildcard {ts : List Term} (hts : Unreserved ts) {j : ℕ}
    (hj : ts[j]? = some .wildcard) :
    ∃ i, (slotTerms ts)[j]? = some (SlotTerm.slot i)
      ∧ (columnNames ts)[i]? = some s!"?_{(ts.take j).count .wildcard + 1}"
      ∧ ∀ j', (slotTerms ts)[j']? = some (SlotTerm.slot i) → j' = j := by
  obtain ⟨i, hterm, hi⟩ := exists_slot_of_label hj rfl
  refine ⟨i, hterm, hi, fun j' hj' => eq_of_getElem?_labels_wildcard hts hj ?_⟩
  obtain ⟨column, hlabel, hi'⟩ := getElem?_labels_of_slotTerms hj'
  rw [hlabel, getElem?_labels, hj, Option.some_inj.mp (hi'.symm.trans hi)]
  rfl

/-- What is shown from the slots of variables has their names. -/
theorem SlotTable.map_getElem?_of_columns {table : SlotTable} {slots : List ℕ}
    {names : List String} (h : table.columns [] names = .ok slots) :
    slots.map (table.names[·]?) = names.map fun name => some s!"?{name}" := by
  obtain ⟨hnames, rfl, -⟩ := (columns_eq_ok_iff List.nodup_nil).mp h
  rw [List.nil_append, List.map_map]
  exact List.map_congr_left fun name hname => List.getElem?_idxOf (hnames name hname).2

/-- **What compiles has its variables resolved**, if some column is asked
for. -/
theorem Query.resolves_of_compile {q : SelectStatement} {c : Query}
    (hasked : q.projection ≠ .vars []) (h : q.compile = .ok c) : c.Resolves q := by
  obtain ⟨-, hunreserved, hlength, hterms, hslots, hprojection⟩ := resolved_of_compile h
  have hc := compiles_of_compile h
  have hall : q.projection = .all → c.slots ≠ [] ∧ c.projection = List.range c.slots.length := by
    intro hproj
    rw [hproj] at hprojection
    rw [hslots]
    exact SlotTable.project_all_eq_ok_iff.mp hprojection
  have hvars : ∀ names, q.projection = .vars names →
      c.projection.map (c.slots[·]?) = names.map fun name => some s!"?{name}" := by
    intro names hproj
    rw [hproj] at hprojection
    rw [hslots]
    exact SlotTable.map_getElem?_of_columns hprojection
  exact {
    slots := hslots
    nodup_slots := hslots ▸ nodup_columnNames _
    wildcard := fun j hj => by
      rw [hterms, hslots]
      exact exists_own_slot_of_wildcard hunreserved hj
    var := fun j name hj => by
      rw [hterms, hslots]
      exact exists_slot_of_label hj rfl
    mem_slots := hc.binds.2
    terms := by
      refine Query.map_terms_eq hlength ?_
      rw [hterms, hslots]
      exact map_term_slotTerms hunreserved
    projection_ne_nil := by
      intro hnil
      cases hproj : q.projection with
      | all =>
        obtain ⟨hne, hrange⟩ := hall hproj
        rw [hnil] at hrange
        exact hne (List.length_eq_zero_iff.mp (List.range_eq_nil.mp hrange.symm))
      | vars names =>
        have hnames := hvars names hproj
        rw [hnil, List.map_nil] at hnames
        exact hasked (hproj.trans (congrArg _ (List.map_eq_nil_iff.mp hnames.symm)))
    nodup_projection := SlotTable.nodup_of_project hprojection
    projection_lt := fun i hi => hc.projection_lt hi
    projection_all := fun hproj => (hall hproj).2
    projection_vars := hvars }

/-- **Resolving the variables of a parsed query is exact and faithful**: it
succeeds if and only if the query makes sense, and then the compiled query is
the query with slots for its columns. -/
theorem resolves_iff_sensible {text : String} {q : SelectStatement}
    (h : Statement.parse text = .ok (.select q)) :
    ((∃ cmd, (Statement.select q).compile = .ok cmd) ↔ q.Sensible)
      ∧ ∀ cmd, (Statement.select q).compile = .ok cmd →
        ∃ c, cmd = .select c ∧ c.Resolves q := by
  have hcompile : ∀ {cmd}, (Statement.select q).compile = .ok cmd
      ↔ ∃ c, q.compile = .ok c ∧ .select c = cmd := map_eq_ok_iff
  have hasked : q.projection ≠ .vars [] := fun hproj => by
    have hwritable : q.projection.Writable := (Statement.writable_of_parse h).projection
    rw [hproj] at hwritable
    exact hwritable.1 rfl
  constructor
  · rw [← exists_compile_iff_sensible]
    constructor
    · rintro ⟨cmd, hcmd⟩
      exact (hcompile.mp hcmd).imp fun c hc => hc.1
    · rintro ⟨c, hc⟩
      exact ⟨_, hcompile.mpr ⟨c, hc, rfl⟩⟩
  · intro cmd hcmd
    obtain ⟨c, hc, rfl⟩ := hcompile.mp hcmd
    exact ⟨c, rfl, Query.resolves_of_compile hasked hc⟩

/-- A query with a variable whose name looks like the number of a wildcard. -/
def numberedQuery : SelectStatement where
  distinct := false
  projection := .vars ["o", "x_1"]
  patterns := [⟨.var "x_1", .node ⟨"knows"⟩, .wildcard, ⟨22, 38⟩⟩,
    ⟨.var "x_1", .wildcard, .var "o", ⟨40, 53⟩⟩]
  limit := none

/-- It is not mistaken for one. -/
theorem resolves_of_numbered_variable :
    Statement.parse "SELECT ?o, ?x_1 WHERE (?x_1, knows, ?), (?x_1, ?, ?o)"
        = .ok (.select numberedQuery)
      ∧ numberedQuery.Sensible
      ∧ ∃ c, (Statement.select numberedQuery).compile = .ok (.select c)
        ∧ c.Resolves numberedQuery ∧ c.slots = ["?x_1", "?_1", "?_2", "?o"]
        ∧ c.projection = [3, 0] := by
  have hparse : Statement.parse "SELECT ?o, ?x_1 WHERE (?x_1, knows, ?), (?x_1, ?, ?o)"
      = .ok (.select numberedQuery) := by decide +kernel
  obtain ⟨hiff, hall⟩ := resolves_iff_sensible hparse
  have hcompile : (Statement.select numberedQuery).compile
      = .ok (.select ⟨["?x_1", "?_1", "?_2", "?o"], [⟨.slot 0, .const ⟨"knows"⟩, .slot 1⟩,
        ⟨.slot 0, .slot 2, .slot 3⟩], [3, 0], false, none⟩) := by decide +kernel
  obtain ⟨c, hc, hresolves⟩ := hall _ hcompile
  cases hc
  exact ⟨hparse, hiff.mp ⟨_, hcompile⟩, _, hcompile, hresolves, rfl, rfl⟩

end TripleScript
