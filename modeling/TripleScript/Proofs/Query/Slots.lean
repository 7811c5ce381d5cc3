import TripleScript.Proofs.Query.Meaning
import TripleScript.Proofs.Select.Collecting
import TripleScript.Proofs.Select.NestedLoop
import TripleScript.Query.Compile

/-!
# Slots are the unknowns of a query

Compiling a query numbers its unknowns in the order of first appearance. The
slot table only knows the names of columns; that it has one slot for each
unknown, and no slot for two, rests on the names: the name of a wildcard
begins with an underscore and that of a variable does not.

`SlotTable.Names` relates a table to the unknowns met so far, and the lemmas
follow the walk over the terms of a query. In the end a compiled query is the
query, slot by slot (`Query.Compiles`, `compiles_of_compile`), its patterns
become the same triples (`Query.Compiles.forall_under_iff`), its columns show
the same nodes (`Query.Compiles.readOff_eq_row`), and its patterns bind every
slot and no others (`Query.Compiles.binds`).
-/

namespace TripleScript

/-! ## Terms -/

/-- **A slot term stands for a term** at a position of a pattern: they are the
same node, or the slot is that of the unknown. -/
def SlotTerm.StandsFor (us : List Unknown) (pattern position : ℕ) (t : Term) :
    SlotTerm → Prop
  | const n => t = .node n
  | slot i => ∃ u, t.unknown? pattern position = some u ∧ us[i]? = some u

theorem SlotTerm.StandsFor.mono {us us' : List Unknown} {pattern position : ℕ} {t : Term}
    {term : SlotTerm} (h : term.StandsFor us pattern position t) (hus : us <+: us') :
    term.StandsFor us' pattern position t := by
  cases term with
  | const n => exact h
  | slot i =>
    obtain ⟨u, hu, hi⟩ := h
    obtain ⟨more, rfl⟩ := hus
    refine ⟨u, hu, ?_⟩
    rw [List.getElem?_append_left (List.getElem?_eq_some_iff.mp hi).1, hi]

/-- **A slot table names some unknowns**: it has a slot for each of them, and
the slot of a variable can be told by its name. -/
structure SlotTable.Names (table : SlotTable) (us : List Unknown) : Prop where
  /-- Each unknown has a slot. -/
  length : table.names.length = us.length
  /-- The slot with the name of a variable is that of the variable. -/
  var : ∀ name, isReserved name = false →
    ∀ i : ℕ, table.names[i]? = some s!"?{name}" ↔ us[i]? = some (.var name)

/-- A name is determined by the column named after it. -/
theorem columnName_inj {name other : String} : s!"?{name}" = s!"?{other}" ↔ name = other :=
  String.append_right_inj "?"

/-- A name that begins with an underscore is kept for wildcards. -/
theorem isReserved_append (text : String) : isReserved ("_" ++ text) = true := by
  simp [isReserved, String.toList_append]

/-- The column of a wildcard has such a name behind the question mark. -/
theorem wildcardName_eq (k : ℕ) : s!"?_{k}" = "?" ++ ("_" ++ toString k) := by
  have hassoc : "?" ++ "_" ++ toString k = "?" ++ ("_" ++ toString k) := String.append_assoc
  exact hassoc

/-- The column of a wildcard is not named after a variable. -/
theorem columnName_ne_wildcard {name : String} (h : isReserved name = false) (k : ℕ) :
    s!"?_{k}" ≠ s!"?{name}" := by
  intro heq
  rw [wildcardName_eq] at heq
  have hname : "_" ++ toString k = name := columnName_inj.mp heq
  rw [← hname, isReserved_append] at h
  exact Bool.noConfusion h

namespace SlotTable

variable {table table' : SlotTable} {occ : List Unknown} {pattern position : ℕ}

theorem names_empty : Names {} [] where
  length := rfl
  var _ _ _ := by simp

/-- One more slot names one more unknown, if its name is right. -/
theorem Names.append {us : List Unknown} (h : table.Names us) {columnName : String}
    {u : Unknown} (hnames : table'.names = table.names ++ [columnName])
    (hname : ∀ name, isReserved name = false →
      (columnName = s!"?{name}" ↔ u = .var name)) : table'.Names (us ++ [u]) where
  length := by rw [hnames, List.length_append, List.length_append, h.length]; rfl
  var name hr i := by
    rw [hnames]
    rcases lt_trichotomy i us.length with hi | rfl | hi
    · rw [List.getElem?_append_left (h.length ▸ hi), List.getElem?_append_left hi,
        h.var name hr i]
    · rw [← h.length, List.getElem?_concat_length, h.length, List.getElem?_concat_length,
        Option.some_inj, Option.some_inj, hname name hr]
    · rw [List.getElem?_eq_none (by simp [h.length]; omega),
        List.getElem?_eq_none (by simp; omega)]
      simp

/-- The slot found for a variable is its slot. -/
theorem Names.of_find? {us : List Unknown} (h : table.Names us) {name : String}
    (hr : isReserved name = false) {i : ℕ} (hi : table.find? name = some i) :
    us[i]? = some (.var name) := by
  obtain ⟨hlt, hget, -⟩ := List.idxOf?_eq_some_iff.mp hi
  exact (h.var name hr i).mp (List.getElem?_eq_some_iff.mpr ⟨hlt, hget⟩)

/-- A variable without a slot has not been met. -/
theorem Names.not_mem_of_find? {us : List Unknown} (h : table.Names us) {name : String}
    (hr : isReserved name = false) (hnone : table.find? name = none) :
    .var name ∉ us := by
  intro hmem
  obtain ⟨i, hi⟩ := List.mem_iff_getElem?.mp hmem
  exact List.idxOf?_eq_none_iff.mp hnone (List.mem_iff_getElem?.mpr ⟨i, (h.var name hr i).mpr hi⟩)

/-- **Resolving a term** notes its unknown and gives a slot term that stands
for it. -/
theorem Names.of_resolve {t : Term} {term : SlotTerm} (h : table.Names occ.eraseDups)
    (hfresh : .wildcard pattern position ∉ occ) (hres : table.resolve t = .ok (term, table')) :
    table'.Names (occ ++ (t.unknown? pattern position).toList).eraseDups
      ∧ term.StandsFor (occ ++ (t.unknown? pattern position).toList).eraseDups
          pattern position t := by
  cases t with
  | node n =>
    cases hres
    rw [Term.unknown?, Option.toList_none, List.append_nil]
    exact ⟨h, rfl⟩
  | var name =>
    rw [Term.unknown?, Option.toList_some, eraseDups_append_singleton]
    simp only [resolve] at hres
    split at hres
    case isTrue => cases hres
    case isFalse hr =>
      have hr := Bool.eq_false_iff.mpr hr
      cases hfind : table.find? name with
      | some i =>
        rw [hfind] at hres
        cases hres
        have hi := h.of_find? hr hfind
        rw [if_pos (List.mem_eraseDups.mp (List.mem_of_getElem? hi))]
        exact ⟨h, .var name, rfl, hi⟩
      | none =>
        rw [hfind] at hres
        cases hres
        rw [if_neg fun hmem => h.not_mem_of_find? hr hfind (List.mem_eraseDups.mpr hmem)]
        refine ⟨h.append rfl fun name' _ => ?_, .var name, rfl, ?_⟩
        · rw [columnName_inj, Unknown.var.injEq]
        · rw [h.length, List.getElem?_concat_length]
  | wildcard =>
    cases hres
    rw [Term.unknown?, Option.toList_some, eraseDups_append_singleton, if_neg hfresh]
    refine ⟨h.append rfl fun name hr => ?_, .wildcard pattern position, rfl, ?_⟩
    · exact ⟨fun hc => absurd hc (columnName_ne_wildcard hr _), fun hc => by cases hc⟩
    · rw [h.length, List.getElem?_concat_length]

end SlotTable

/-! ## Patterns -/

/-- **A slot pattern stands for a pattern**, position by position. -/
structure SlotPattern.StandsFor (us : List Unknown) (pattern : ℕ) (p : TriplePattern)
    (sp : SlotPattern) : Prop where
  /-- The subjects. -/
  subject : sp.subject.StandsFor us pattern 0 p.subject
  /-- The predicates. -/
  predicate : sp.predicate.StandsFor us pattern 1 p.predicate
  /-- The objects. -/
  object : sp.object.StandsFor us pattern 2 p.object

theorem SlotPattern.StandsFor.mono {us us' : List Unknown} {pattern : ℕ} {p : TriplePattern}
    {sp : SlotPattern} (h : sp.StandsFor us pattern p) (hus : us <+: us') :
    sp.StandsFor us' pattern p :=
  ⟨h.subject.mono hus, h.predicate.mono hus, h.object.mono hus⟩

namespace SlotTable

variable {table table' : SlotTable} {occ : List Unknown}

/-- A wildcard is met at its own place only. -/
theorem wildcard_not_mem_append {pattern position position' : ℕ} (t : Term)
    (h : .wildcard pattern position ∉ occ) (hne : position' ≠ position) :
    .wildcard pattern position ∉ occ ++ (t.unknown? pattern position').toList := by
  rw [List.mem_append, Option.mem_toList]
  rintro (hmem | hmem)
  · exact h hmem
  · cases t with
    | node n => cases hmem
    | var name => cases hmem
    | wildcard =>
      cases hmem
      exact hne rfl

/-- Resolving a pattern notes its unknowns and gives a slot pattern that
stands for it. -/
theorem Names.of_resolvePattern {pattern : ℕ} {p : TriplePattern} {sp : SlotPattern}
    (h : table.Names occ.eraseDups) (hfresh : ∀ position, .wildcard pattern position ∉ occ)
    (hres : table.resolvePattern p = .ok (sp, table')) :
    table'.Names (occ ++ p.unknowns pattern).eraseDups
      ∧ sp.StandsFor (occ ++ p.unknowns pattern).eraseDups pattern p := by
  obtain ⟨⟨subject, table₁⟩, hs, hres⟩ := bind_eq_ok_iff.mp hres
  obtain ⟨⟨predicate, table₂⟩, hp, hres⟩ := bind_eq_ok_iff.mp hres
  obtain ⟨⟨object, table₃⟩, ho, hres⟩ := bind_eq_ok_iff.mp hres
  cases hres
  have hfresh₁ := fun position (hne : 0 ≠ position) =>
    wildcard_not_mem_append p.subject (hfresh position) hne
  obtain ⟨h₁, hsubject⟩ := h.of_resolve (hfresh 0) hs
  obtain ⟨h₂, hpredicate⟩ := h₁.of_resolve (hfresh₁ 1 (by omega)) hp
  obtain ⟨h₃, hobject⟩ := h₂.of_resolve
    (wildcard_not_mem_append p.predicate (hfresh₁ 2 (by omega)) (by omega)) ho
  have hocc : occ ++ p.unknowns pattern
      = occ ++ (p.subject.unknown? pattern 0).toList
        ++ (p.predicate.unknown? pattern 1).toList
        ++ (p.object.unknown? pattern 2).toList := by
    simp only [TriplePattern.unknowns, List.append_assoc]
  rw [hocc]
  refine ⟨h₃, ⟨hsubject.mono ?_, hpredicate.mono (eraseDups_prefix_append _ _), hobject⟩⟩
  exact (eraseDups_prefix_append _ _).trans (eraseDups_prefix_append _ _)

/-- A wildcard of another pattern is not met in a pattern. -/
theorem wildcard_not_mem_unknowns {pattern pattern' position : ℕ} (p : TriplePattern)
    (hne : pattern ≠ pattern') : .wildcard pattern' position ∉ p.unknowns pattern := by
  obtain ⟨s, q, o, span⟩ := p
  cases s <;> cases q <;> cases o <;> simp [TriplePattern.unknowns, Term.unknown?, hne.symm]

/-- **Resolving patterns** notes their unknowns and gives slot patterns that
stand for them. -/
theorem Names.of_resolvePatterns {start : ℕ} {ps : List TriplePattern}
    {sps : List SlotPattern} (h : table.Names occ.eraseDups)
    (hfresh : ∀ pattern ≥ start, ∀ position, .wildcard pattern position ∉ occ)
    (hres : table.resolvePatterns ps = .ok (sps, table')) :
    table'.Names (occ ++ appearances start ps).eraseDups
      ∧ List.Forall₂
          (fun p sp => sp.StandsFor (occ ++ appearances start ps).eraseDups p.2 p.1)
          (ps.zipIdx start) sps := by
  -- later patterns only add unknowns, so what a term stands for stays
  induction ps generalizing table occ start sps with
  | nil =>
    cases hres
    rw [appearances, List.zipIdx_nil, List.flatMap_nil, List.append_nil]
    exact ⟨h, .nil⟩
  | cons p ps ih =>
    obtain ⟨⟨sp, table₁⟩, hp, hres⟩ := bind_eq_ok_iff.mp hres
    obtain ⟨⟨sps', table₂⟩, hps, hres⟩ := bind_eq_ok_iff.mp hres
    cases hres
    obtain ⟨h₁, hstands⟩ := h.of_resolvePattern (hfresh start le_rfl) hp
    have hfresh₁ : ∀ pattern ≥ start + 1, ∀ position,
        .wildcard pattern position ∉ occ ++ p.unknowns start := by
      intro pattern hpattern position
      rw [List.mem_append, not_or]
      exact ⟨hfresh pattern (by omega) position, wildcard_not_mem_unknowns p (by omega)⟩
    have happ : occ ++ appearances start (p :: ps)
        = occ ++ p.unknowns start ++ appearances (start + 1) ps := by
      simp only [appearances, List.zipIdx_cons, List.flatMap_cons, List.append_assoc]
    obtain ⟨h₂, hrest⟩ := ih h₁ hfresh₁ hps
    rw [happ, List.zipIdx_cons]
    exact ⟨h₂, .cons (hstands.mono (eraseDups_prefix_append _ _)) hrest⟩

/-! ## Columns -/

/-- The slots of named columns are those of the variables. -/
theorem Names.of_columns {us : List Unknown} (h : table.Names us) {chosen slots : List ℕ}
    {names : List String} (hres : table.columns chosen names = .ok slots) :
    ∃ more, slots = chosen ++ more
      ∧ List.Forall₂ (fun i u => us[i]? = some u) more (names.map .var) := by
  induction names generalizing chosen with
  | nil =>
    cases hres
    exact ⟨[], (List.append_nil _).symm, .nil⟩
  | cons name names ih =>
    simp only [columns] at hres
    split at hres
    case isTrue => cases hres
    case isFalse hr =>
      cases hfind : table.find? name with
      | none =>
        rw [hfind] at hres
        cases hres
      | some i =>
        rw [hfind] at hres
        dsimp only at hres
        split at hres
        case isTrue => cases hres
        case isFalse =>
          obtain ⟨more, rfl, hmore⟩ := ih hres
          refine ⟨i :: more, by rw [List.append_assoc, List.singleton_append], ?_⟩
          exact .cons (h.of_find? (Bool.eq_false_iff.mpr hr) hfind) hmore

/-- **The slots of the columns** are those of the unknowns asked for. -/
theorem Names.of_project {q : SelectStatement} (h : table.Names q.unknowns)
    {slots : List ℕ} (hres : table.project q.projection = .ok slots) :
    List.Forall₂ (fun i u => q.unknowns[i]? = some u) slots q.columns := by
  unfold SelectStatement.columns
  cases hproj : q.projection with
  | all =>
    rw [hproj] at hres
    simp only [project] at hres
    split at hres
    case isTrue => cases hres
    case isFalse =>
      cases hres
      rw [h.length]
      refine List.forall₂_iff_get.mpr ⟨List.length_range, fun i hi hi' => ?_⟩
      simp
  | vars names =>
    rw [hproj] at hres
    obtain ⟨more, rfl, hmore⟩ := h.of_columns hres
    exact hmore

end SlotTable

/-! ## Queries -/

/-- **A compiled query is the query, slot by slot.** -/
structure Query.Compiles (q : SelectStatement) (c : Query) : Prop where
  /-- There is a slot for each unknown. -/
  slots : c.slots.length = q.unknowns.length
  /-- The slot patterns stand for the patterns. -/
  patterns : List.Forall₂ (fun p sp => sp.StandsFor q.unknowns p.2 p.1) q.patterns.zipIdx
    c.patterns
  /-- The slots of the columns are those of the unknowns asked for. -/
  projection : List.Forall₂ (fun i u => q.unknowns[i]? = some u) c.projection q.columns
  /-- Equal rows are given once or not. -/
  distinct : c.distinct = q.distinct
  /-- As many rows are wanted. -/
  limit : c.limit = q.limit

/-- **Compiling a query puts slots for its unknowns** and does nothing else. -/
theorem compiles_of_compile {q : SelectStatement} {c : Query} (h : q.compile = .ok c) :
    c.Compiles q := by
  unfold SelectStatement.compile at h
  split at h
  case isTrue => cases h
  case isFalse =>
    obtain ⟨⟨patterns, table⟩, hpatterns, h⟩ := bind_eq_ok_iff.mp h
    obtain ⟨projection, hprojection, h⟩ := bind_eq_ok_iff.mp h
    cases h
    have hempty : SlotTable.Names {} ([] : List Unknown).eraseDups := SlotTable.names_empty
    have hfresh : ∀ pattern ≥ 0, ∀ position, Unknown.wildcard pattern position ∉ [] :=
      fun _ _ _ => List.not_mem_nil
    obtain ⟨hnames, hstands⟩ := hempty.of_resolvePatterns hfresh hpatterns
    exact ⟨hnames.length, hstands, hnames.of_project hprojection, rfl, rfl⟩

namespace Query.Compiles

variable {q : SelectStatement} {c : Query} {ρ : List Node}

/-- A slot term has the node of the term it stands for. -/
theorem under_term {pattern position : ℕ} {t : Term} {term : SlotTerm}
    (h : term.StandsFor q.unknowns pattern position t) :
    term.under ρ = t.value (SelectStatement.Assignment.ofNodes q ρ).node pattern position := by
  cases term with
  | const n =>
    obtain rfl : t = .node n := h
    rfl
  | slot i =>
    obtain ⟨u, hu, hi⟩ := h
    have hnode := SelectStatement.Assignment.node_ofNodes ρ hi
    cases t with
    | node n => cases hu
    | var name => cases hu; exact hnode.symm
    | wildcard => cases hu; exact hnode.symm

/-- **A slot pattern becomes the triple of its pattern.** -/
theorem under_pattern {pattern : ℕ} {p : TriplePattern} {sp : SlotPattern}
    (h : sp.StandsFor q.unknowns pattern p) :
    sp.under ρ = p.value (SelectStatement.Assignment.ofNodes q ρ).node pattern := by
  rw [SlotPattern.under, TriplePattern.value, under_term h.subject, under_term h.predicate,
    under_term h.object]

/-- **The patterns hold together under some nodes** if and only if these are a
solution of the query. -/
theorem forall_under_iff (h : c.Compiles q) {S : Finset Triple} :
    (∀ sp ∈ c.patterns, sp.under ρ ∈ S)
      ↔ q.Holds S (SelectStatement.Assignment.ofNodes q ρ) := by
  have hmap : c.patterns.map (·.under ρ) = q.patterns.zipIdx.map
      fun p => p.1.value (SelectStatement.Assignment.ofNodes q ρ).node p.2 := by
    refine List.forall₂_eq_eq_eq ▸ ?_
    rw [List.forall₂_map_left_iff, List.forall₂_map_right_iff]
    exact h.patterns.flip.imp fun sp p hp => under_pattern hp
  rw [← List.forall_mem_map (P := (· ∈ S)), hmap, List.forall_mem_map]
  rfl

/-- **The columns show the row of the assignment.** -/
theorem readOff_eq_row (h : c.Compiles q) :
    readOff c.projection ρ = (SelectStatement.Assignment.ofNodes q ρ).row := by
  unfold readOff SelectStatement.Assignment.row
  refine List.forall₂_eq_eq_eq ▸ ?_
  rw [List.forall₂_map_left_iff, List.forall₂_map_right_iff]
  exact h.projection.imp fun i u hi => (SelectStatement.Assignment.node_ofNodes ρ hi).symm

/-- The slots of a pattern are those of its unknowns. -/
theorem mem_slots_iff {pattern i : ℕ} {p : TriplePattern} {sp : SlotPattern}
    (h : sp.StandsFor q.unknowns pattern p) :
    i ∈ sp.slots ↔ ∃ u ∈ p.unknowns pattern, q.unknowns[i]? = some u := by
  have hterm : ∀ {position : ℕ} {t : Term} {term : SlotTerm},
      term.StandsFor q.unknowns pattern position t →
      (i ∈ term.slot? ↔ ∃ u ∈ (t.unknown? pattern position).toList,
        q.unknowns[i]? = some u) := by
    intro position t term hstands
    cases term with
    | const n =>
      obtain rfl : t = .node n := hstands
      simp [SlotTerm.slot?, Term.unknown?]
    | slot j =>
      obtain ⟨u, hu, hj⟩ := hstands
      simp only [SlotTerm.slot?, hu, Option.mem_def, Option.some_inj, Option.toList_some,
        List.mem_singleton, exists_eq_left]
      constructor
      · rintro rfl
        exact hj
      · intro hi
        have hlt := (List.getElem?_eq_some_iff.mp hj).1
        exact (List.getElem?_inj hlt q.nodup_unknowns).mp (hj.trans hi.symm)
  rw [SlotPattern.mem_slots, hterm h.subject, hterm h.predicate, hterm h.object]
  simp only [TriplePattern.unknowns, List.mem_append]
  grind

/-- **The patterns bind every slot** and nothing else. -/
theorem binds (h : c.Compiles q) :
    (∀ sp ∈ c.patterns, ∀ i ∈ sp.slots, i < c.slots.length)
      ∧ ∀ i < c.slots.length, ∃ sp ∈ c.patterns, i ∈ sp.slots := by
  rw [h.slots]
  constructor
  · intro sp hsp i hi
    obtain ⟨p, -, hp⟩ := exists_of_forall₂_of_mem h.patterns.flip hsp
    obtain ⟨u, -, hu⟩ := (mem_slots_iff hp).mp hi
    exact (List.getElem?_eq_some_iff.mp hu).1
  · intro i hi
    have hmem : q.unknowns[i] ∈ appearances 0 q.patterns :=
      List.mem_eraseDups.mp (List.getElem_mem hi)
    obtain ⟨p, hp, hu⟩ := List.mem_flatMap.mp hmem
    obtain ⟨sp, hsp, hstands⟩ := exists_of_forall₂_of_mem h.patterns hp
    exact ⟨sp, hsp, (mem_slots_iff hstands).mpr ⟨_, hu, List.getElem?_eq_getElem hi⟩⟩

/-- A column shows a slot. -/
theorem projection_lt (h : c.Compiles q) {i : ℕ} (hi : i ∈ c.projection) :
    i < c.slots.length := by
  obtain ⟨u, -, hu⟩ := exists_of_forall₂_of_mem h.projection hi
  rw [h.slots]
  exact (List.getElem?_eq_some_iff.mp hu).1

end Query.Compiles

end TripleScript
