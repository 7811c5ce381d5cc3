import TripleScript.Proofs.Run.Joining
import TripleScript.Proofs.Store.History

/-!
# Seeding puts in every line or none

A seed text is read line by line; blank lines and comments are left out, but
they have their numbers. What is said of it here does not refer to the way in
which a text is taken apart: lines are what stands between line feeds
(`seedLines`). The reader takes a carriage return in front of a line feed for a
part of the line end, and sees no line behind the last line feed. That makes no
difference (`seedTriples_linesFrom`), since a line says the same without the
carriage return, and that last line says nothing.

Seeding then goes through the lines that count (`seedTriples_eq_mapM`) and stops
at the first one that writes no triple, before the store has been touched. So
there are two cases, and `seed_all_or_nothing` says what the answer and the store
are in either of them.
-/

namespace TripleScript

open Text

/-! ## The lines that count -/

/-- A line of a seed text that counts. -/
structure SeedLine where
  /-- Its number among all lines, the first of which is number one. -/
  number : ℕ
  /-- What it says, without the blanks around it. -/
  text : String

/-- What a line says, if it is neither blank nor a comment. -/
def SeedLine.ofLine? (number : ℕ) (line : List Char) : Option SeedLine :=
  if trim line = [] ∨ (trim line).head? = some '#' then none
  else some ⟨number, String.ofList (trim line)⟩

/-- **The lines of a seed text that count**. The lines are what stands between
line feeds, and all of them are numbered. -/
def seedLines (text : String) : List SeedLine :=
  ((text.toList.splitOn '\n').zipIdx 1).filterMap fun x => SeedLine.ofLine? x.2 x.1

/-- The triple that a line writes, or the error that blames it. -/
def SeedLine.triple (path : String) (x : SeedLine) : Except SystemError Triple :=
  (Triple.parse x.text).mapError fun reason => .seed path x.number reason.message

/-- The reader of seed texts takes the same of a line. -/
theorem SeedLine.ofLine?_eq (number : ℕ) (line : List Char) :
    SeedLine.ofLine? number line = (lineContent? line).map (⟨number, ·⟩) := by
  unfold ofLine? lineContent?
  generalize trim line = cs
  cases cs with
  | nil => rfl
  | cons c cs =>
    by_cases hc : c = '#' <;> simp [hc]

/-- **Seeding goes through the lines that count**, in their order. -/
theorem seedTriples_eq_mapM (path : String) (number : ℕ) (ls : List (List Char)) :
    seedTriples path number ls
      = ((ls.zipIdx number).filterMap fun x => SeedLine.ofLine? x.2 x.1).mapM
        (SeedLine.triple path) := by
  induction ls generalizing number with
  | nil => rfl
  | cons l ls ih =>
    rw [List.zipIdx_cons, List.filterMap_cons, SeedLine.ofLine?_eq, seedTriples]
    cases lineContent? l with
    | none => exact ih (number + 1)
    | some text =>
      dsimp only [Option.map_some]
      rw [List.mapM_cons, ← ih, SeedLine.triple]
      cases Triple.parse text with
      | error reason => rfl
      | ok t => cases seedTriples path (number + 1) ls <;> rfl

/-- **Line ends do not matter**: neither the carriage return that belongs to one,
nor that there is nothing behind the last one. -/
theorem seedTriples_linesFrom (path : String) (number : ℕ) {current : List Char}
    (hcurrent : '\n' ∉ current) (cs : List Char) :
    seedTriples path number (linesFrom current cs)
      = seedTriples path number ((current.reverse ++ cs).splitOn '\n') := by
  have hreverse {current : List Char} (h : '\n' ∉ current) : '\n' ∉ current.reverse :=
    mt List.mem_reverse.mp h
  induction cs generalizing current number with
  | nil =>
    rw [List.append_nil, List.splitOn_eq_singleton (hreverse hcurrent), linesFrom]
    split
    · next hnil =>
      -- a blank line more or less
      subst hnil
      rfl
    · rfl
  | cons c cs ih =>
    rw [linesFrom]
    split
    · next hc =>
      subst hc
      rw [List.splitOn_append_cons_self, List.splitOn_eq_singleton (hreverse hcurrent),
        List.singleton_append, seedTriples, seedTriples, lineContent?_dropReturn,
        ih _ List.not_mem_nil]
      rfl
    · next hc =>
      have hnext : '\n' ∉ c :: current := by
        rw [List.mem_cons, not_or]
        exact ⟨Ne.symm hc, hcurrent⟩
      rw [ih number hnext, List.reverse_cons, List.append_assoc]
      rfl

/-- **The triples of a seed text** are those of its lines that count. -/
theorem seedTriples_lines (path text : String) :
    seedTriples path 1 (lines text.toList) = (seedLines text).mapM (SeedLine.triple path) := by
  rw [lines, seedTriples_linesFrom path 1 List.not_mem_nil, seedTriples_eq_mapM]
  rfl

/-! ## All or nothing -/

section Triple

variable {path : String} {x : SeedLine}

theorem SeedLine.triple_eq_ok_iff {t : Triple} :
    x.triple path = .ok t ↔ Triple.parse x.text = .ok t :=
  mapError_eq_ok_iff

theorem SeedLine.triple_eq_error_iff {e : SystemError} :
    x.triple path = .error e ↔ ∃ reason, Triple.parse x.text = .error reason
      ∧ e = .seed path x.number reason.message := by
  unfold triple
  cases Triple.parse x.text <;> simp [Except.mapError, eq_comm]

end Triple

namespace MemoryStore

variable {m : MemoryStore} {path text : String}

/-- **Seeding puts in the triples of all lines that count**, and counts those
that the store did not have. -/
theorem exists_seed_of_triples {ts : List Triple}
    (h : List.Forall₂ (fun x t => Triple.parse x.text = .ok t) (seedLines text) ts) :
    ∃ n, m.seed path (.ok text) = .ok (n, (StoreCall.seed path (.ok text)).apply m)
      ∧ ((StoreCall.seed path (.ok text)).apply m).triples.contents
        = m.triples.contents ∪ ts.toFinset
      ∧ n = (ts.toFinset \ m.triples.contents).card := by
  have hts : seedTriples path 1 (lines text.toList) = .ok ts := by
    rw [seedTriples_lines, mapM_eq_ok_iff]
    exact h.imp fun x t => SeedLine.triple_eq_ok_iff.mpr
  have hseed : m.seed path (.ok text) = .ok ((m.triples.insertAll ts).1,
      { m with triples := (m.triples.insertAll ts).2 }) := by
    simp only [seed, hts]
  refine ⟨(m.triples.insertAll ts).1, ?_, ?_, ?_⟩
  · simp only [StoreCall.apply, StoreCall.perform, hseed]
  · simp only [StoreCall.apply, StoreCall.perform, hseed, Indexes.contents_insertAll]
  · have hcard := m.triples.fst_insertAll ts
    rw [Indexes.contents_insertAll, Finset.union_comm, ← Finset.card_sdiff_add_card] at hcard
    exact Nat.add_right_cancel hcard

/-- Seeding that succeeds puts in the triples of the lines that count, together. -/
theorem exists_triples_of_seed {m' : MemoryStore} {n : ℕ}
    (h : m.seed path (.ok text) = .ok (n, m')) :
    ∃ ts, List.Forall₂ (fun x t => Triple.parse x.text = .ok t) (seedLines text) ts
      ∧ m' = { m with triples := (m.triples.insertAll ts).2 } := by
  unfold seed at h
  dsimp only at h
  rw [seedTriples_lines] at h
  split at h
  · cases h
  · next ts hts =>
    cases h
    exact ⟨ts, (mapM_eq_ok_iff.mp hts).imp fun x t => SeedLine.triple_eq_ok_iff.mp, rfl⟩

/-- **Seeding fails at the first line that counts and writes no triple**, and
puts in nothing. -/
theorem seed_of_error {before after : List SeedLine} {x : SeedLine} {reason : GroundError}
    (hlines : seedLines text = before ++ x :: after)
    (hbefore : ∀ y ∈ before, ∃ t, Triple.parse y.text = .ok t)
    (hx : Triple.parse x.text = .error reason) :
    m.seed path (.ok text) = .error (.seed path x.number reason.message)
      ∧ (StoreCall.seed path (.ok text)).apply m = m := by
  have hts : seedTriples path 1 (lines text.toList)
      = .error (.seed path x.number reason.message) := by
    rw [seedTriples_lines, mapM_eq_error_iff]
    exact ⟨before, x, after, hlines,
      fun y hy => (hbefore y hy).imp fun t => SeedLine.triple_eq_ok_iff.mpr,
      SeedLine.triple_eq_error_iff.mpr ⟨reason, hx, rfl⟩⟩
  have hseed : m.seed path (.ok text) = .error (.seed path x.number reason.message) := by
    simp only [seed, hts]
  exact ⟨hseed, by simp only [StoreCall.apply, StoreCall.perform, hseed]⟩

end MemoryStore

/-- **Each line that counts writes a triple, or there is a first one that does
not.** -/
theorem exists_triples_or_first_error (xs : List SeedLine) :
    (∃ ts, List.Forall₂ (fun x t => Triple.parse x.text = .ok t) xs ts)
      ∨ ∃ before x after reason, xs = before ++ x :: after
        ∧ (∀ y ∈ before, ∃ t, Triple.parse y.text = .ok t)
        ∧ Triple.parse x.text = .error reason := by
  cases h : xs.mapM fun x => Triple.parse x.text with
  | ok ts => exact Or.inl ⟨ts, mapM_eq_ok_iff.mp h⟩
  | error reason =>
    obtain ⟨before, x, after, hxs, hbefore, hx⟩ := mapM_eq_error_iff.mp h
    exact Or.inr ⟨before, x, after, reason, hxs, hbefore, hx⟩

/-- **Seeding is all or nothing.** Whatever the text and whatever the store, one
of two things happens, and not both. Either each line that counts writes a
triple; then seeding succeeds, the store has these triples in addition to its
own, and what is counted are those it did not have. Or there is a first line
that counts and writes none; then seeding fails with the number of that line in
the file and what is wrong with it, and the store is what it was. -/
theorem seed_all_or_nothing (m : MemoryStore) (path text : String) :
    let m' := (StoreCall.seed path (.ok text)).apply m
    Xor
      (∃ ts n, List.Forall₂ (fun x t => Triple.parse x.text = .ok t) (seedLines text) ts
        ∧ m.seed path (.ok text) = .ok (n, m')
        ∧ m'.triples.contents = m.triples.contents ∪ ts.toFinset
        ∧ n = (ts.toFinset \ m.triples.contents).card)
      (∃ before x after reason, seedLines text = before ++ x :: after
        ∧ (∀ y ∈ before, ∃ t, Triple.parse y.text = .ok t)
        ∧ Triple.parse x.text = .error reason
        ∧ m.seed path (.ok text) = .error (.seed path x.number reason.message) ∧ m' = m) := by
  intro m'
  rcases exists_triples_or_first_error (seedLines text) with
    ⟨ts, hts⟩ | ⟨before, x, after, reason, hlines, hbefore, hx⟩
  · obtain ⟨n, hseed, hcontents, hn⟩ := MemoryStore.exists_seed_of_triples (m := m) hts
    refine Or.inl ⟨⟨ts, n, hts, hseed, hcontents, hn⟩, ?_⟩
    rintro ⟨_, _, _, _, -, -, -, herror, -⟩
    cases hseed.symm.trans herror
  · obtain ⟨hseed, hm'⟩ := MemoryStore.seed_of_error (m := m) hlines hbefore hx
    refine Or.inr ⟨⟨before, x, after, reason, hlines, hbefore, hx, hseed, hm'⟩, ?_⟩
    rintro ⟨_, _, -, hok, -⟩
    cases hseed.symm.trans hok

end TripleScript
