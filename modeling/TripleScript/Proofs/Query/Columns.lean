import TripleScript.Proofs.Plan.Sound
import TripleScript.Proofs.Statement.Printing

/-!
# No two columns have the same name

Columns are named after slots, and a slot gets its name when it is given out:
a variable its own, unless it has a slot already, a wildcard the next number.
So the names differ (`SlotTable.Distinct`), and since no column is asked for
twice the names of the columns do (`Query.nodup_columns_of_compile`). Each of
them is a question mark with bare characters behind it (`IsColumnName`,
`Query.isColumnName_of_compile`).
-/

namespace TripleScript

/-- **A name that a column can have**: a question mark with bare characters
behind it. -/
def IsColumnName (name : String) : Prop :=
  ∃ w, name = "?" ++ w ∧ ∀ c ∈ w.toList, BareCharacter c

/-- No other character occurs in it. -/
theorem IsColumnName.notMem {name : String} (h : IsColumnName name) {c : Char} (hmark : c ≠ '?')
    (hbare : ¬BareCharacter c) : c ∉ name.toList := by
  obtain ⟨w, rfl, hw⟩ := h
  rw [String.toList_append, List.mem_append, not_or]
  exact ⟨fun hc => hmark (List.mem_singleton.mp hc), fun hc => hbare (hw c hc)⟩

namespace SlotTable

/-- **The names of the slots differ**, and the wildcards have had the numbers
up to the last one given out. -/
structure Distinct (table : SlotTable) : Prop where
  /-- No name comes twice. -/
  nodup : table.names.Nodup
  /-- No wildcard has a number that is still to be given out. -/
  le_wildcards : ∀ k : ℕ, s!"?_{k}" ∈ table.names → k ≤ table.wildcards

variable {table table' : SlotTable}

theorem distinct_empty : Distinct {} where
  nodup := List.nodup_nil
  le_wildcards _ h := by cases h

/-- Wildcards with different numbers have different names. -/
theorem wildcardName_inj {k l : ℕ} : s!"?_{k}" = s!"?_{l}" ↔ k = l := by
  refine ⟨fun h => ?_, fun h => h ▸ rfl⟩
  have hname : "?_" ++ toString k = "?_" ++ toString l := h
  exact toString_injective ((String.append_right_inj "?_").mp hname)

/-- A variable that has no slot has no name in the table. -/
theorem not_mem_names_of_find? {name : String} (h : table.find? name = none) :
    s!"?{name}" ∉ table.names :=
  List.idxOf?_eq_none_iff.mp h

/-- **Resolving a term keeps the names different.** -/
theorem Distinct.of_resolve (h : table.Distinct) {t : Term} {term : SlotTerm}
    (hres : table.resolve t = .ok (term, table')) : table'.Distinct := by
  cases t with
  | node n =>
    cases hres
    exact h
  | var name =>
    simp only [resolve] at hres
    split at hres
    case isTrue => cases hres
    case isFalse hr =>
      cases hfind : table.find? name with
      | some i =>
        rw [hfind] at hres
        cases hres
        exact h
      | none =>
        rw [hfind] at hres
        cases hres
        refine ⟨nodup_append_singleton h.nodup (not_mem_names_of_find? hfind), ?_⟩
        intro k hk
        rcases List.mem_append.mp hk with hk | hk
        · exact h.le_wildcards k hk
        · exact absurd (List.mem_singleton.mp hk)
            (columnName_ne_wildcard (Bool.eq_false_iff.mpr hr) k)
  | wildcard =>
    cases hres
    have hnew : s!"?_{table.wildcards + 1}" ∉ table.names := fun hmem =>
      absurd (h.le_wildcards _ hmem) (Nat.not_succ_le_self _)
    refine ⟨nodup_append_singleton h.nodup hnew, ?_⟩
    intro k hk
    rcases List.mem_append.mp hk with hk | hk
    · exact Nat.le_succ_of_le (h.le_wildcards k hk)
    · exact (wildcardName_inj.mp (List.mem_singleton.mp hk)).le

/-- The column of a wildcard has such a name. -/
theorem isColumnName_wildcard (k : ℕ) : IsColumnName s!"?_{k}" := by
  refine ⟨"_" ++ toString k, wildcardName_eq k, ?_⟩
  rw [String.toList_append]
  exact List.forall_mem_append.mpr ⟨by simp [BareCharacter], (isWord_toString k).2⟩

/-- **Resolving a term that can be written** keeps the names such that columns
can have them. -/
theorem isColumnName_of_resolve (h : ∀ name ∈ table.names, IsColumnName name) {t : Term}
    {term : SlotTerm} (ht : t.Writable) (hres : table.resolve t = .ok (term, table')) :
    ∀ name ∈ table'.names, IsColumnName name := by
  cases t with
  | node n =>
    cases hres
    exact h
  | var name =>
    simp only [resolve] at hres
    split at hres
    case isTrue => cases hres
    case isFalse =>
      cases hfind : table.find? name with
      | some i =>
        rw [hfind] at hres
        cases hres
        exact h
      | none =>
        rw [hfind] at hres
        cases hres
        exact List.forall_mem_append.mpr
          ⟨h, List.forall_mem_singleton.mpr ⟨name, rfl, ht.2⟩⟩
  | wildcard =>
    cases hres
    exact List.forall_mem_append.mpr
      ⟨h, List.forall_mem_singleton.mpr (isColumnName_wildcard (table.wildcards + 1))⟩

section Walk

variable (invariant : SlotTable → Prop)

/-- What resolving each term of a pattern keeps, resolving the pattern keeps. -/
theorem invariant_of_resolvePattern {p : TriplePattern} {sp : SlotPattern}
    (hterm : ∀ t ∈ p.terms, ∀ {table table' term}, invariant table →
      table.resolve t = .ok (term, table') → invariant table')
    (h : invariant table) (hres : table.resolvePattern p = .ok (sp, table')) :
    invariant table' := by
  obtain ⟨⟨subject, table₁⟩, hs, hres⟩ := bind_eq_ok_iff.mp hres
  obtain ⟨⟨predicate, table₂⟩, hp, hres⟩ := bind_eq_ok_iff.mp hres
  obtain ⟨⟨object, table₃⟩, ho, hres⟩ := bind_eq_ok_iff.mp hres
  cases hres
  exact hterm _ (by simp [TriplePattern.terms])
    (hterm _ (by simp [TriplePattern.terms]) (hterm _ (by simp [TriplePattern.terms]) h hs) hp) ho

/-- **What resolving a term keeps, the walk over all patterns keeps.** -/
theorem invariant_of_resolvePatterns {ps : List TriplePattern} {sps : List SlotPattern}
    (hterm : ∀ p ∈ ps, ∀ t ∈ p.terms, ∀ {table table' term}, invariant table →
      table.resolve t = .ok (term, table') → invariant table')
    (h : invariant table) (hres : table.resolvePatterns ps = .ok (sps, table')) :
    invariant table' := by
  induction ps generalizing table sps with
  | nil =>
    cases hres
    exact h
  | cons p ps ih =>
    obtain ⟨⟨sp, table₁⟩, hp, hres⟩ := bind_eq_ok_iff.mp hres
    obtain ⟨⟨sps', table₂⟩, hps, hres⟩ := bind_eq_ok_iff.mp hres
    cases hres
    obtain ⟨hfirst, hothers⟩ := List.forall_mem_cons.mp hterm
    exact ih hothers (invariant_of_resolvePattern invariant hfirst h hp) hps

end Walk

/-- **No column is asked for twice.** -/
theorem nodup_of_columns {chosen slots : List ℕ} {names : List String}
    (h : chosen.Nodup) (hres : table.columns chosen names = .ok slots) : slots.Nodup := by
  induction names generalizing chosen with
  | nil =>
    cases hres
    exact h
  | cons name names ih =>
    simp only [columns] at hres
    split at hres
    case isTrue => cases hres
    case isFalse =>
      cases hfind : table.find? name with
      | none =>
        rw [hfind] at hres
        cases hres
      | some i =>
        rw [hfind] at hres
        dsimp only at hres
        split at hres
        case isTrue => cases hres
        case isFalse hnew =>
          rw [List.contains_iff_mem] at hnew
          exact ih (nodup_append_singleton h hnew) hres

theorem nodup_of_project {projection : Projection} {slots : List ℕ}
    (hres : table.project projection = .ok slots) : slots.Nodup := by
  cases projection with
  | all =>
    simp only [project] at hres
    split at hres
    case isTrue => cases hres
    case isFalse =>
      cases hres
      exact List.nodup_range
  | vars names => exact nodup_of_columns List.nodup_nil hres

end SlotTable

/-- Names of different slots that differ give columns that differ. -/
theorem nodup_map_getD {slots : List String} {projection : List ℕ} (hslots : slots.Nodup)
    (hprojection : projection.Nodup) (hlt : ∀ i ∈ projection, i < slots.length) :
    (projection.map (slots.getD · "")).Nodup := by
  refine hprojection.map_on fun i hi j hj heq => ?_
  rw [List.getD_eq_getElem _ _ (hlt i hi), List.getD_eq_getElem _ _ (hlt j hj)] at heq
  exact (hslots.getElem_inj_iff).mp heq

/-- What a query compiles to has been resolved and projected. -/
theorem exists_table_of_compile {q : SelectStatement} {c : Query} (h : q.compile = .ok c) :
    ∃ table, SlotTable.resolvePatterns {} q.patterns = .ok (c.patterns, table)
      ∧ table.project q.projection = .ok c.projection ∧ c.slots = table.names := by
  unfold SelectStatement.compile at h
  split at h
  case isTrue => cases h
  case isFalse =>
    obtain ⟨⟨patterns, table⟩, hpatterns, h⟩ := bind_eq_ok_iff.mp h
    obtain ⟨projection, hprojection, h⟩ := bind_eq_ok_iff.mp h
    cases h
    exact ⟨table, hpatterns, hprojection, rfl⟩

/-- **The columns of a compiled query have different names.** -/
theorem Query.nodup_columns_of_compile {q : SelectStatement} {c : Query}
    (h : q.compile = .ok c) : (c.projection.map (c.slots.getD · "")).Nodup := by
  have hc := compiles_of_compile h
  obtain ⟨table, hpatterns, hprojection, hslots⟩ := exists_table_of_compile h
  have hdistinct : table.Distinct := SlotTable.invariant_of_resolvePatterns SlotTable.Distinct
    (fun _ _ _ _ _ _ _ h hres => h.of_resolve hres) SlotTable.distinct_empty hpatterns
  exact nodup_map_getD (hslots ▸ hdistinct.nodup) (SlotTable.nodup_of_project hprojection)
    fun i hi => hc.projection_lt hi

/-- **They are names that a column can have**, if the query can be written. -/
theorem Query.isColumnName_of_compile {q : SelectStatement} {c : Query} (hq : q.Writable)
    (h : q.compile = .ok c) : ∀ name ∈ c.projection.map (c.slots.getD · ""), IsColumnName name := by
  have hc := compiles_of_compile h
  obtain ⟨table, hpatterns, -, hslots⟩ := exists_table_of_compile h
  have hnames : ∀ name ∈ table.names, IsColumnName name :=
    SlotTable.invariant_of_resolvePatterns
      (fun table => ∀ name ∈ table.names, IsColumnName name)
      (fun p hp t ht _ _ _ h hres =>
        SlotTable.isColumnName_of_resolve h (hq.patterns.2 p hp t ht) hres)
      (List.forall_mem_nil _) hpatterns
  refine List.forall_mem_map.mpr fun i hi => ?_
  rw [List.getD_eq_getElem _ _ (hc.projection_lt hi)]
  exact hnames _ (hslots ▸ List.getElem_mem _)

end TripleScript
