import TripleScript.Proofs.Store.Reading
import TripleScript.Store.Seed

/-!
# A store is a finite set with ordered scans

Whatever is done to a store from outside is a row of calls: triples are
inserted, erased or seeded from a text. Seen from outside the store is a
finite set, to which these calls are unions and differences
(`StoreCall.onSet`), and each of them answers by how much the set has grown or
shrunk – a triple that stands twice in one call counts once.

The step is `StoreCall.contents_apply` with `Indexes.fst_insertAll` and
`Indexes.fst_eraseAll` for the numbers, `StoreCall.contents_foldl_apply` is
the run, and `history_refines_set` puts it together with what is read from
the store behind any history.
-/

namespace TripleScript

namespace Indexes

@[simp] theorem contents_insertAll (ix : Indexes) (ts : List Triple) :
    (ix.insertAll ts).2.contents = ix.contents ∪ ts.toFinset := by
  ext u
  rw [mem_contents, mem_insertAll, Finset.mem_union, List.mem_toFinset, mem_contents, or_comm]

@[simp] theorem contents_eraseAll (ix : Indexes) (ts : List Triple) :
    (ix.eraseAll ts).2.contents = ix.contents \ ts.toFinset := by
  ext u
  rw [mem_contents, mem_eraseAll, Finset.mem_sdiff, List.mem_toFinset, mem_contents, and_comm]

/-- **Inserting counts by how much the set grows.** -/
theorem fst_insertAll (ix : Indexes) (ts : List Triple) :
    (ix.insertAll ts).1 + ix.contents.card = (ix.insertAll ts).2.contents.card := by
  let add : ℕ × Indexes → Triple → ℕ × Indexes := fun acc t =>
    (if t ∈ acc.2 then acc.1 else acc.1 + 1, acc.2.insert t)
  -- the number counted so far and the set so far move together
  suffices h : ∀ (n : ℕ) (jx : Indexes), (ts.foldl add (n, jx)).1 + jx.contents.card
      = n + (ts.foldl add (n, jx)).2.contents.card by
    have h := h 0 ix
    rwa [Nat.zero_add] at h
  induction ts with
  | nil => intro n jx; rfl
  | cons t ts ih =>
    intro n jx
    show (ts.foldl add (if t ∈ jx then n else n + 1, jx.insert t)).1 + jx.contents.card
      = n + (ts.foldl add (if t ∈ jx then n else n + 1, jx.insert t)).2.contents.card
    by_cases ht : t ∈ jx
    · have hcard : (jx.insert t).contents.card = jx.contents.card := by
        rw [contents_insert, Finset.insert_eq_of_mem (mem_contents.mpr ht)]
      rw [if_pos ht, ← hcard]
      exact ih n (jx.insert t)
    · have hcard : (jx.insert t).contents.card = jx.contents.card + 1 := by
        rw [contents_insert, Finset.card_insert_of_notMem (mt mem_contents.mp ht)]
      have hrest := ih (n + 1) (jx.insert t)
      rw [if_neg ht]
      omega

/-- **Erasing counts by how much the set shrinks.** -/
theorem fst_eraseAll (ix : Indexes) (ts : List Triple) :
    (ix.eraseAll ts).1 + (ix.eraseAll ts).2.contents.card = ix.contents.card := by
  let remove : ℕ × Indexes → Triple → ℕ × Indexes := fun acc t =>
    (if t ∈ acc.2 then acc.1 + 1 else acc.1, acc.2.erase t)
  suffices h : ∀ (n : ℕ) (jx : Indexes), (ts.foldl remove (n, jx)).1
      + (ts.foldl remove (n, jx)).2.contents.card = n + jx.contents.card by
    have h := h 0 ix
    rwa [Nat.zero_add] at h
  induction ts with
  | nil => intro n jx; rfl
  | cons t ts ih =>
    intro n jx
    show (ts.foldl remove (if t ∈ jx then n + 1 else n, jx.erase t)).1
      + (ts.foldl remove (if t ∈ jx then n + 1 else n, jx.erase t)).2.contents.card
      = n + jx.contents.card
    by_cases ht : t ∈ jx
    · have hcard : (jx.erase t).contents.card + 1 = jx.contents.card := by
        rw [contents_erase, Finset.card_erase_add_one (mem_contents.mpr ht)]
      have hrest := ih (n + 1) (jx.erase t)
      rw [if_pos ht]
      omega
    · have hcard : (jx.erase t).contents.card = jx.contents.card := by
        rw [contents_erase, Finset.erase_eq_of_notMem (mt mem_contents.mp ht)]
      rw [if_neg ht, ← hcard]
      exact ih n (jx.erase t)

end Indexes

/-! ## Calls -/

/-- A call that changes a store. -/
inductive StoreCall where
  /-- Triples are inserted. -/
  | insert (ts : List Triple)
  /-- Triples are erased. -/
  | erase (ts : List Triple)
  /-- The triples of a text, or what came of reading it, are put in. -/
  | seed (path : String) (content : Except ReadFailure String)

/-- The triples of a seed text: none if it cannot be read or has a line that
is no triple. -/
def seededTriples (path : String) (content : Except ReadFailure String) : List Triple :=
  match content with
  | .error _ => []
  | .ok text =>
    match seedTriples path 1 (Text.lines text.toList) with
    | .error _ => []
    | .ok ts => ts

namespace StoreCall

/-- What the store answers to a call, with the store behind it. -/
def perform (m : MemoryStore) : StoreCall → Except SystemError (ℕ × MemoryStore)
  | insert ts => m.insert ts
  | erase ts => m.erase ts
  | seed path content => m.seed path content

/-- The store behind a call. A call that fails leaves it as it was. -/
def apply (m : MemoryStore) (c : StoreCall) : MemoryStore :=
  match c.perform m with
  | .error _ => m
  | .ok (_, m) => m

/-- **What a call makes of a set of triples.** -/
def onSet (S : Finset Triple) : StoreCall → Finset Triple
  | insert ts => S ∪ ts.toFinset
  | erase ts => S \ ts.toFinset
  | seed path content => S ∪ (seededTriples path content).toFinset

/-- No call forbids writing. -/
theorem readOnly_apply (m : MemoryStore) (c : StoreCall) :
    (c.apply m).readOnly = m.readOnly := by
  cases c <;>
    simp only [apply, perform, MemoryStore.insert, MemoryStore.erase, MemoryStore.seed] <;>
    grind

end StoreCall

namespace MemoryStore

theorem insert_eq_ok {m : MemoryStore} (h : m.readOnly = false) (ts : List Triple) :
    m.insert ts = .ok ((m.triples.insertAll ts).1,
      { m with triples := (m.triples.insertAll ts).2 }) := by
  rw [insert, h]
  rfl

theorem erase_eq_ok {m : MemoryStore} (h : m.readOnly = false) (ts : List Triple) :
    m.erase ts = .ok ((m.triples.eraseAll ts).1,
      { m with triples := (m.triples.eraseAll ts).2 }) := by
  rw [erase, h]
  rfl

/-- **Inserting that succeeds is a union.** -/
theorem contents_of_insert {m m' : MemoryStore} {ts : List Triple} {n : ℕ}
    (h : m.insert ts = .ok (n, m')) :
    m'.triples.contents = m.triples.contents ∪ ts.toFinset := by
  cases hm : m.readOnly with
  | true =>
    rw [insert, if_pos hm] at h
    cases h
  | false =>
    rw [insert_eq_ok hm, Except.ok.injEq, Prod.mk.injEq] at h
    rw [← h.2]
    exact Indexes.contents_insertAll _ _

/-- **Erasing that succeeds is a difference.** -/
theorem contents_of_erase {m m' : MemoryStore} {ts : List Triple} {n : ℕ}
    (h : m.erase ts = .ok (n, m')) :
    m'.triples.contents = m.triples.contents \ ts.toFinset := by
  cases hm : m.readOnly with
  | true =>
    rw [erase, if_pos hm] at h
    cases h
  | false =>
    rw [erase_eq_ok hm, Except.ok.injEq, Prod.mk.injEq] at h
    rw [← h.2]
    exact Indexes.contents_eraseAll _ _

/-- Seeding puts in the triples of the text, if it succeeds. -/
theorem eq_of_seed {m m' : MemoryStore} {path : String}
    {content : Except ReadFailure String} {n : ℕ}
    (h : m.seed path content = .ok (n, m')) :
    n = (m.triples.insertAll (seededTriples path content)).1
      ∧ m' = { m with triples := (m.triples.insertAll (seededTriples path content)).2 } := by
  cases content with
  | error failure => cases h
  | ok text =>
    unfold seed at h
    cases hts : seedTriples path 1 (Text.lines text.toList) with
    | error e => simp only [hts, reduceCtorEq] at h
    | ok ts =>
      have hs : seededTriples path (.ok text) = ts := by simp only [seededTriples, hts]
      simp only [hts, Except.ok.injEq, Prod.mk.injEq] at h
      rw [hs]
      exact ⟨h.1.symm, h.2.symm⟩

/-- A seed text that is refused has nothing to put in. -/
theorem seededTriples_of_seed_eq_error {m : MemoryStore} {path : String}
    {content : Except ReadFailure String} {e : SystemError}
    (h : m.seed path content = .error e) : seededTriples path content = [] := by
  cases content with
  | error failure => rfl
  | ok text =>
    unfold seed at h
    cases hts : seedTriples path 1 (Text.lines text.toList) with
    | error e => simp only [seededTriples, hts]
    | ok ts => simp only [hts, reduceCtorEq] at h

end MemoryStore

namespace StoreCall

/-- **A call does to the store what it does to its set.** -/
theorem contents_apply {m : MemoryStore} (hm : m.readOnly = false) (c : StoreCall) :
    (c.apply m).triples.contents = c.onSet m.triples.contents := by
  cases c with
  | insert ts =>
    simp only [apply, perform, onSet, MemoryStore.insert_eq_ok hm, Indexes.contents_insertAll]
  | erase ts =>
    simp only [apply, perform, onSet, MemoryStore.erase_eq_ok hm, Indexes.contents_eraseAll]
  | seed path content =>
    simp only [apply, perform, onSet]
    cases h : m.seed path content with
    | error e =>
      rw [MemoryStore.seededTriples_of_seed_eq_error h, List.toFinset_nil, Finset.union_empty]
    | ok r =>
      obtain ⟨n, m'⟩ := r
      obtain ⟨-, rfl⟩ := MemoryStore.eq_of_seed h
      exact Indexes.contents_insertAll _ _

/-- **A row of calls does to the store what it does to its set**, and the
store takes writes all along. -/
theorem contents_foldl_apply {m : MemoryStore} (hm : m.readOnly = false)
    (calls : List StoreCall) :
    (calls.foldl apply m).readOnly = false
      ∧ (calls.foldl apply m).triples.contents = calls.foldl onSet m.triples.contents := by
  induction calls generalizing m with
  | nil => exact ⟨hm, rfl⟩
  | cons c calls ih =>
    rw [List.foldl_cons, List.foldl_cons, ← contents_apply hm c]
    exact ih ((readOnly_apply m c).trans hm)

end StoreCall

/-- **A store is a finite set with ordered scans.** Behind every row of calls
on a fresh store there is one set, made by unions and differences, such that
each index lists its keys in order, the size is its size, a scan lists in
order the keys of those triples that its lookup accepts, counting is the
length of the scan, and a further call answers by how much the set changes. -/
theorem history_refines_set (name : String) (calls : List StoreCall) :
    let m : MemoryStore := calls.foldl StoreCall.apply { name }
    let S : Finset Triple := calls.foldl StoreCall.onSet ∅
    (∀ a : Arrangement, (m.triples.toList a).map a.key = (S.image a.key).sort)
      ∧ m.size = S.card
      ∧ (∀ l : Lookup, (m.scan l).map l.arrangement.key
          = ((S.filter (l.accepts ·)).image l.arrangement.key).sort)
      ∧ (∀ (access : Access) (l : Lookup), m.count access l = (m.scan l).length)
      ∧ (∀ ts, ∃ n, m.insert ts = .ok (n, (StoreCall.insert ts).apply m)
          ∧ n + S.card = (S ∪ ts.toFinset).card)
      ∧ (∀ ts, ∃ n, m.erase ts = .ok (n, (StoreCall.erase ts).apply m)
          ∧ n + (S \ ts.toFinset).card = S.card)
      ∧ ∀ path content n m', m.seed path content = .ok (n, m') →
          n + S.card = (S ∪ (seededTriples path content).toFinset).card := by
  intro m S
  obtain ⟨hm, hS⟩ : m.readOnly = false ∧ m.triples.contents = S := by
    have h := StoreCall.contents_foldl_apply (m := { name }) rfl calls
    rwa [show (MemoryStore.triples { name }).contents = ∅ from Indexes.contents_empty] at h
  refine ⟨fun a => ?_, ?_, fun l => ?_, m.count_eq_length, fun ts => ?_, fun ts => ?_, ?_⟩
  · rw [← hS]
    exact m.triples.map_key_toList a
  · rw [← hS]
    exact m.triples.size_eq_card
  · refine Arrangement.map_key_eq_sort (m.pairwise_scan l) fun t => ?_
    rw [MemoryStore.mem_scan, Finset.mem_filter, ← hS, Indexes.mem_contents]
  · refine ⟨(m.triples.insertAll ts).1, ?_, ?_⟩
    · simp only [StoreCall.apply, StoreCall.perform, MemoryStore.insert_eq_ok hm]
    · rw [← hS, ← Indexes.contents_insertAll]
      exact m.triples.fst_insertAll ts
  · refine ⟨(m.triples.eraseAll ts).1, ?_, ?_⟩
    · simp only [StoreCall.apply, StoreCall.perform, MemoryStore.erase_eq_ok hm]
    · rw [← hS, ← Indexes.contents_eraseAll]
      exact m.triples.fst_eraseAll ts
  · intro path content n m' h
    obtain ⟨rfl, -⟩ := MemoryStore.eq_of_seed h
    rw [← hS, ← Indexes.contents_insertAll]
    exact m.triples.fst_insertAll _

end TripleScript
