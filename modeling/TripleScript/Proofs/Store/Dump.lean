import TripleScript.Proofs.Statement.Printing
import TripleScript.Proofs.Store.History

/-!
# A store is seeded back from its dump

A dump has the triples of a store, one on each line. Seeding takes such a text
apart at its line ends, trims the lines, leaves some of them out and reads the
others. None of this touches a written triple: it stands between parentheses, so
it is not blank, no comment, and nothing of it is trimmed off or belongs to a
line end (`Triple.lineContent?_written`, `Triple.dropReturn_written`). A node may
have a `#`, a carriage return, a quote or a backslash in it, or be empty. Only a
line feed would break the line, and the triples that have none are those of one
line (`Triple.OneLine`).

That what is written for a triple is read as that triple, whatever its nodes, is
`Triple.parse_written_eq`, and `seed_dump_restores` is the whole.
-/

namespace TripleScript

open Text

/-- **The dump of a store**: its triples as a seed text, in the order of an
unbound scan and one on each line. -/
def MemoryStore.dump (m : MemoryStore) : String :=
  "\n".intercalate ((m.scan .any).map Triple.written)

/-! ## One triple -/

/-- No line feed is written but those of the text. -/
theorem Node.newline_notMem_written {n : Node} (h : '\n' ∉ n.text.toList) :
    '\n' ∉ n.written.toList := by
  unfold written
  split
  case isTrue => exact h
  case isFalse =>
    rw [String.toList_ofList]
    intro hmem
    rcases List.mem_append.mp hmem with hmem | hmem
    · rcases List.mem_cons.mp hmem with hquote | hmem
      · exact absurd hquote (by decide)
      · exact (mem_escaped hmem).elim (by decide) h
    · exact absurd (List.mem_singleton.mp hmem) (by decide)

namespace Triple

/-- The triple as a pattern, which stands nowhere. -/
def pattern (t : Triple) : TriplePattern :=
  ⟨.node t.subject, .node t.predicate, .node t.object, default⟩

/-- **A triple is read back** from what is written for it. -/
theorem parse_written_eq (t : Triple) : parse t.written = .ok t := by
  have hwritable : t.pattern.Writable := by
    simp [TriplePattern.Writable, TriplePattern.terms, pattern, Term.Writable]
  obtain ⟨ls, hls, hspells⟩ := TriplePattern.exists_spells hwritable
  exact parse_eq_ok_iff.mpr ⟨ls, t.pattern.unplaced, hspells.splits, hls, rfl⟩

/-- **A triple of one line**: no line feed in its nodes. -/
structure OneLine (t : Triple) : Prop where
  subject : '\n' ∉ t.subject.text.toList
  predicate : '\n' ∉ t.predicate.text.toList
  object : '\n' ∉ t.object.text.toList

/-- A triple stands between parentheses. -/
theorem toList_written (t : Triple) : t.written.toList
    = '(' :: (t.subject.written.toList ++ [',', ' '] ++ t.predicate.written.toList ++ [',', ' ']
      ++ t.object.written.toList ++ [')']) := by
  simp [written, toString]

/-- It is written on one line. -/
theorem OneLine.newline_notMem_written {t : Triple} (h : t.OneLine) :
    '\n' ∉ t.written.toList := by
  have hs := Node.newline_notMem_written h.subject
  have hp := Node.newline_notMem_written h.predicate
  have ho := Node.newline_notMem_written h.object
  rw [toList_written]
  simp [hs, hp, ho]

theorem head?_written (t : Triple) : t.written.toList.head? = some '(' := by
  rw [toList_written]
  rfl

theorem getLast?_written (t : Triple) : t.written.toList.getLast? = some ')' := by
  rw [toList_written, ← List.cons_append]
  exact List.getLast?_concat

/-- **A written triple is a line that says all it is**, whatever its nodes. -/
theorem lineContent?_written (t : Triple) : lineContent? t.written.toList = some t.written := by
  have htrim : trim t.written.toList = t.written.toList := by
    refine trim_eq_self ?_ ?_
    · rw [head?_written]
      rintro _ ⟨⟩
      decide
    · rw [getLast?_written]
      rintro _ ⟨⟩
      decide
  have hhead := t.head?_written
  unfold lineContent?
  rw [htrim]
  split
  · next hnil =>
    rw [hnil] at hhead
    cases hhead
  · next c cs hcons =>
    rw [hcons] at hhead
    cases hhead
    rw [← hcons, String.ofList_toList]
    rfl

/-- Nothing of it is a part of the line end. -/
theorem dropReturn_written (t : Triple) : dropReturn t.written.toList = t.written.toList := by
  unfold dropReturn
  rw [getLast?_written, if_neg (by decide)]

end Triple

/-! ## All triples -/

/-- **The lines of a dump are its triples.** A line feed at the end makes no
further line. -/
theorem lines_intercalate_written {ts : List Triple} (h : ∀ t ∈ ts, t.OneLine) (hne : ts ≠ [])
    {ending : List Char} (hending : ending = [] ∨ ending = ['\n']) :
    lines (("\n".intercalate (ts.map Triple.written)).toList ++ ending)
      = ts.map fun t => t.written.toList := by
  induction ts with
  | nil => exact absurd rfl hne
  | cons t ts ih =>
    obtain ⟨ht, hts⟩ := List.forall_mem_cons.mp h
    have hfree := ht.newline_notMem_written
    cases ts with
    | nil =>
      rw [List.map_singleton, List.map_singleton, String.intercalate_singleton]
      rcases hending with rfl | rfl
      · rw [List.append_nil]
        refine lines_eq_singleton hfree fun hnil => ?_
        have hhead := t.head?_written
        rw [hnil] at hhead
        cases hhead
      · rw [lines_append_newline hfree, t.dropReturn_written, lines_nil]
    | cons u ts =>
      have hlines := ih hts (List.cons_ne_nil u ts)
      have htext : ("\n".intercalate ((t :: u :: ts).map Triple.written)).toList ++ ending
          = t.written.toList
            ++ '\n' :: (("\n".intercalate ((u :: ts).map Triple.written)).toList ++ ending) := by
        rw [List.map_cons, List.map_cons, String.intercalate_cons_cons, String.toList_append,
          String.toList_append, List.append_assoc, List.append_assoc]
        rfl
      rw [htext, lines_append_newline hfree, t.dropReturn_written, hlines]
      rfl

/-- Lines that write triples seed these triples. -/
theorem seedTriples_written (path : String) (number : ℕ) (ts : List Triple) :
    seedTriples path number (ts.map fun t => t.written.toList) = .ok ts := by
  induction ts generalizing number with
  | nil => rfl
  | cons t ts ih =>
    rw [List.map_cons, seedTriples, t.lineContent?_written]
    dsimp only
    rw [t.parse_written_eq, ih]
    rfl

/-- The triples of a dump are those of the store. -/
theorem seedTriples_dump {m : MemoryStore} (path : String) (h : ∀ t ∈ m.triples, t.OneLine)
    {ending : String} (hending : ending = "" ∨ ending = "\n") :
    seedTriples path 1 (lines (m.dump ++ ending).toList) = .ok (m.scan .any) := by
  have hlines : ∀ t ∈ m.scan .any, t.OneLine := fun t ht => h t (MemoryStore.mem_scan.mp ht).1
  rw [String.toList_append, MemoryStore.dump]
  generalize m.scan .any = ts at hlines
  cases ts with
  | nil => rcases hending with rfl | rfl <;> rfl
  | cons t ts =>
    rw [lines_intercalate_written hlines (List.cons_ne_nil t ts), seedTriples_written]
    rcases hending with rfl | rfl
    · exact Or.inl rfl
    · exact Or.inr rfl

/-- **A store is seeded back from its dump.** If the triples of a store are of
one line each, a store without triples that is seeded with the dump – with a
line feed behind it or without – has the same triples, and as many are counted.
Each line of the dump alone is read as its triple. -/
theorem seed_dump_restores (m m₀ : MemoryStore) (path ending : String)
    (h₀ : m₀.triples = ∅) (hending : ending = "" ∨ ending = "\n")
    (h : ∀ t ∈ m.triples, t.OneLine) :
    m₀.seed path (.ok (m.dump ++ ending)) = .ok (m.size, { m₀ with triples := m.triples })
      ∧ ∀ t : Triple, Triple.parse t.written = .ok t := by
  refine ⟨?_, Triple.parse_written_eq⟩
  have hcontents : (m₀.triples.insertAll (m.scan .any)).2 = m.triples := by
    ext t
    simp [h₀, Indexes.mem_insertAll, MemoryStore.mem_scan]
  have hcount : (m₀.triples.insertAll (m.scan .any)).1 = m.size := by
    have hcard := m₀.triples.fst_insertAll (m.scan .any)
    rw [hcontents, h₀, Indexes.contents_empty, Finset.card_empty, Nat.add_zero] at hcard
    rw [h₀, hcard]
    exact m.triples.size_eq_card.symm
  simp only [MemoryStore.seed, seedTriples_dump path h hending, hcontents, hcount]

/-- Nodes that look like layout: nothing at all, a comment, a carriage return at
the end of the text, a quote and a backslash. -/
theorem seed_dump_restores_of_layout :
    let m : MemoryStore := { name := "a", triples := (Indexes.insertAll ∅
      [⟨⟨""⟩, ⟨"# é\r"⟩, ⟨"\"\\"⟩⟩, ⟨⟨"#"⟩, ⟨" "⟩, ⟨"a), (b\r"⟩⟩]).2 }
    m.dump = "(\"\", \"# é\r\", \"\\\"\\\\\")\n(#, \" \", \"a), (b\r\")"
      ∧ MemoryStore.seed { name := "b" } "dump" (.ok (m.dump ++ "\n"))
        = .ok (2, { name := "b", triples := m.triples }) := by
  intro m
  have hm : ∀ t ∈ m.triples, t.OneLine := by
    intro t ht
    simp only [m, Indexes.mem_insertAll, List.mem_cons, List.not_mem_nil, or_false,
      Indexes.not_mem_empty] at ht
    rcases ht with rfl | rfl <;> exact ⟨by decide, by decide, by decide⟩
  have hsize : m.size = 2 := by decide +kernel
  refine ⟨by decide +kernel, ?_⟩
  rw [← hsize]
  exact (seed_dump_restores m { name := "b" } "dump" "\n" rfl (Or.inr rfl) hm).1

end TripleScript
