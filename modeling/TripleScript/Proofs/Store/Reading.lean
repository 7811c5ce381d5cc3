import TripleScript.Proofs.Lists
import TripleScript.Proofs.Store.Order

/-!
# Reading an index is filtering it

A lookup is read from a stretch of an index: from a lower bound on, as long
as the triples lead with the nodes wanted, and filtered. Since the index is
sorted by its keys, the triples that lead with the same nodes stand next to
each other and the stretch misses none of them, whichever positions the
lookup names and whatever the texts are – the lower bound is padded with
empty texts, and no text comes before the empty one.

`Indexes.read_none` says so for a whole scan and `Indexes.read_some` for what
comes behind a cursor. A page can then be described without an index: behind
a triple of the scan it is the next piece of that scan
(`MemoryStore.page_of_scan_eq_append`), however the store finds it.
-/

namespace TripleScript

/-! ## Triples that lead with the nodes wanted -/

/-- No text comes before the empty one. -/
theorem not_lt_empty (s : String) : ¬s < "" := by
  rw [String.lt_iff_toList_lt]
  exact List.not_lt_nil _

/-- **Keys with the same front part have everything between them in it**: what
lies between a lower bound and a pair that agrees with the bound in the first
component agrees with it too, and lies between them in the second. -/
theorem lex_between {α β : Type} [LinearOrder α] [LinearOrder β] {x₀ x x' : α}
    {y₀ y y' : β} (h₀ : ¬toLex (x, y) < toLex (x₀, y₀))
    (h : toLex (x, y) < toLex (x', y')) (hx : x' = x₀) :
    x = x₀ ∧ ¬y < y₀ ∧ y < y' := by
  rw [Prod.Lex.toLex_lt_toLex] at h₀ h
  push Not at h₀
  rcases h with h | ⟨rfl, hy⟩
  · exact absurd (hx ▸ h) (not_lt.mpr h₀.1)
  · exact ⟨hx, not_lt.mpr (h₀.2 hx), hy⟩

namespace Lookup

/-- A position that wants a node takes only that node. -/
theorem fits_some_iff {m n : Node} : fits (some m) n = true ↔ n.text = m.text := by
  obtain ⟨m⟩ := m
  obtain ⟨n⟩ := n
  simp only [fits, Option.all_some, beq_iff_eq, Node.mk.injEq]
  exact eq_comm

/-- **The triples that lead with the nodes wanted are a stretch**: from the
lower bound on, whatever comes before one of them is one of them. -/
theorem leads_of_between {l : Lookup} {t u : Triple}
    (h₀ : ¬l.arrangement.key t < l.arrangement.key l.start)
    (h : l.arrangement.key t < l.arrangement.key u) (hu : l.leads u = true) :
    l.leads t = true := by
  -- the nodes wanted are compared first, so they are fixed one after the other
  obtain ⟨s, p, o⟩ := l
  cases s with
  | some s =>
    simp only [leads, Bool.and_eq_true, beq_iff_eq] at hu ⊢
    obtain ⟨hs, h₀, h⟩ := lex_between h₀ h (congrArg Node.text hu.1).symm
    refine ⟨Node.mk.injEq .. ▸ hs.symm, ?_⟩
    cases p with
    | none => rfl
    | some p => exact fits_some_iff.mpr (lex_between h₀ h (fits_some_iff.mp hu.2)).1
  | none =>
    simp only [leads, accepts, Bool.and_eq_true] at hu ⊢
    obtain ⟨⟨-, hp⟩, ho⟩ := hu
    cases p with
    | some p =>
      obtain ⟨hp, h₀, h⟩ := lex_between h₀ h (fits_some_iff.mp hp)
      refine ⟨⟨rfl, fits_some_iff.mpr hp⟩, ?_⟩
      cases o with
      | none => rfl
      | some o => exact fits_some_iff.mpr (lex_between h₀ h (fits_some_iff.mp ho)).1
    | none =>
      refine ⟨⟨rfl, rfl⟩, ?_⟩
      cases o with
      | none => rfl
      | some o => exact fits_some_iff.mpr (lex_between h₀ h (fits_some_iff.mp ho)).1

/-- **No triple that is accepted comes before the lower bound.** -/
theorem not_lt_start {l : Lookup} {t : Triple} (h : l.accepts t = true) :
    ¬l.arrangement.key t < l.arrangement.key l.start := by
  obtain ⟨s, p, o⟩ := l
  obtain ⟨hs, hp, ho⟩ := accepts_iff.mp h
  have hempty := not_lt_empty
  cases s <;> cases p <;> cases o <;>
    simp_all [arrangement, Arrangement.key, Arrangement.first, Arrangement.second,
      Arrangement.third, start, Prod.Lex.toLex_lt_toLex]

/-- A triple that is accepted leads with the nodes wanted. -/
theorem leads_of_accepts {l : Lookup} {t : Triple} (h : l.accepts t = true) :
    l.leads t = true := by
  obtain ⟨s, p, o⟩ := l
  cases s with
  | none => exact h
  | some s =>
    simp only [accepts, Bool.and_eq_true] at h
    simp only [leads, Bool.and_eq_true, beq_iff_eq]
    exact ⟨Node.mk.injEq .. ▸ (fits_some_iff.mp h.1.1).symm, h.1.2⟩

end Lookup

namespace Indexes

/-- **What is read is a filter of the index**, as long as reading begins at
the lower bound or behind it. -/
theorem read_eq_filter (ix : Indexes) (l : Lookup) (after : Option Triple)
    (hdown : ∀ t u, l.arrangement.key t < l.arrangement.key u →
      skips l after u = true → skips l after t = true)
    (hstart : ∀ t, skips l after t = false →
      ¬l.arrangement.key t < l.arrangement.key l.start) :
    ix.read l after
      = (ix.toList l.arrangement).filter (fun t => !skips l after t && l.accepts t) := by
  have hsorted := (ix.pairwise_toList l.arrangement).imp
    fun {t u} h => Arrangement.compare_eq_lt_iff.mp h
  unfold read
  rw [dropWhile_eq_filter (hsorted.imp fun h => hdown _ _ h), takeWhile_eq_filter,
    List.filter_filter, List.filter_filter]
  · refine List.filter_congr fun t _ => ?_
    cases ha : l.accepts t with
    | false => simp
    | true => simp [Lookup.leads_of_accepts ha]
  · rw [List.pairwise_filter]
    refine hsorted.imp fun {t u} h ht _ hu => ?_
    exact Lookup.leads_of_between (hstart t (by simpa using ht)) h hu

/-- **A scan reads every triple that the lookup accepts**, in the order of its
arrangement. -/
theorem read_none (ix : Indexes) (l : Lookup) :
    ix.read l none = (ix.toList l.arrangement).filter l.accepts := by
  have hskips : ∀ t, skips l none t = true ↔
      l.arrangement.key t < l.arrangement.key l.start := fun t => by
    simp only [skips, beq_iff_eq, Arrangement.compare_eq_lt_iff]
  rw [read_eq_filter ix l none]
  · refine List.filter_congr fun t _ => ?_
    cases ha : l.accepts t with
    | false => simp
    | true =>
      have hs : skips l none t = false :=
        Bool.eq_false_iff.mpr fun h => Lookup.not_lt_start ha ((hskips t).mp h)
      simp [hs]
  · intro t u h hu
    exact (hskips t).mpr (h.trans ((hskips u).mp hu))
  · intro t ht h
    simp [(hskips t).mpr h] at ht

/-- **Behind a cursor, reading goes on with the triples that come later** in
the order of the arrangement. -/
theorem read_some (ix : Indexes) {l : Lookup} {cursor : Triple}
    (hc : l.accepts cursor = true) :
    ix.read l (some cursor) = (ix.toList l.arrangement).filter
      (fun t => decide (l.arrangement.key cursor < l.arrangement.key t) && l.accepts t) := by
  have hskips : ∀ t, skips l (some cursor) t
      = !decide (l.arrangement.key cursor < l.arrangement.key t) := fun t => by
    rw [Bool.eq_iff_iff]
    simp only [skips, bne_iff_ne, Bool.not_eq_true', decide_eq_false_iff_not]
    exact Arrangement.compare_ne_gt_iff
  rw [read_eq_filter ix l (some cursor)]
  · simp only [hskips, Bool.not_not]
  · intro t u h hu
    simp only [hskips, Bool.not_eq_true', decide_eq_false_iff_not] at hu ⊢
    exact fun ht => hu (ht.trans h)
  · intro t ht h
    simp only [hskips, Bool.not_eq_false', decide_eq_true_eq] at ht
    exact Lookup.not_lt_start hc (ht.trans h)

end Indexes

/-! ## Scans and pages of a store -/

namespace MemoryStore

theorem scan_eq_filter (m : MemoryStore) (l : Lookup) :
    m.scan l = (m.triples.toList l.arrangement).filter l.accepts :=
  m.triples.read_none l

/-- **A scan finds the triples of the store that the lookup accepts.** -/
@[simp] theorem mem_scan {m : MemoryStore} {l : Lookup} {t : Triple} :
    t ∈ m.scan l ↔ t ∈ m.triples ∧ l.accepts t = true := by
  rw [scan_eq_filter, List.mem_filter, Indexes.mem_toList]

/-- A scan is strictly increasing in the arrangement of its lookup. -/
theorem pairwise_scan (m : MemoryStore) (l : Lookup) :
    (m.scan l).Pairwise fun t u => l.arrangement.compare t u = .lt := by
  rw [scan_eq_filter]
  exact (m.triples.pairwise_toList _).filter _

theorem nodup_scan (m : MemoryStore) (l : Lookup) : (m.scan l).Nodup := by
  rw [scan_eq_filter]
  exact (m.triples.nodup_toList _).filter _

/-- **A scan is as long as the lookup accepts triples of the store.** -/
theorem length_scan_eq_card (m : MemoryStore) (l : Lookup) :
    (m.scan l).length = (m.triples.contents.filter fun t => l.accepts t = true).card := by
  rw [← List.toFinset_card_of_nodup (m.nodup_scan l)]
  refine congrArg Finset.card (Finset.ext fun t => ?_)
  rw [List.mem_toFinset, mem_scan, Finset.mem_filter, Indexes.mem_contents]

/-- A scan finds no more triples than the store has. -/
theorem length_scan_le (m : MemoryStore) (l : Lookup) : (m.scan l).length ≤ m.size := by
  rw [length_scan_eq_card, size, Indexes.size_eq_card]
  exact Finset.card_filter_le _ _

/-- **Counting is the length of the scan**, for the lookup that names nothing
as for any other. -/
theorem count_eq_length (m : MemoryStore) (access : Access) (l : Lookup) :
    m.count access l = (m.scan l).length := by
  unfold count
  split
  case isFalse => rfl
  case isTrue h =>
    obtain ⟨s, p, o⟩ := l
    cases s <;> cases p <;> cases o <;> simp [Lookup.bound] at h
    show m.size = (m.scan .any).length
    rw [scan_eq_filter, List.filter_eq_self.mpr fun t _ => Lookup.accepts_any t]
    exact Std.ExtTreeSet.length_toList.symm

theorem page_none (m : MemoryStore) (access : Access) (l : Lookup) (n : ℕ) :
    m.page access l none n = (m.scan l).take n := by
  cases access <;> rfl

/-- What stands behind a triple in a list without repetitions. -/
theorem behind_append_cons {xs ys : List Triple} {t : Triple}
    (h : (xs ++ t :: ys).Nodup) : behind t (xs ++ t :: ys) = ys := by
  have hxs : ∀ u ∈ xs, (u != t) = true := fun u hu => by
    rw [bne_iff_ne]
    rintro rfl
    exact (List.nodup_append.mp h).2.2 u hu u List.mem_cons_self rfl
  rw [behind, List.dropWhile_append_of_pos hxs]
  simp

/-- **The page behind a triple of the scan is the next piece of the scan**,
whichever way the store finds it. -/
theorem page_of_scan_eq_append {m : MemoryStore} {l : Lookup} {xs ys : List Triple}
    {t : Triple} (access : Access) (n : ℕ) (h : m.scan l = xs ++ t :: ys) :
    m.page access l (some t) n = ys.take n := by
  cases access with
  | scanning =>
    show (behind t (m.scan l)).take n = _
    rw [h, behind_append_cons (h ▸ m.nodup_scan l)]
  | indexed =>
    have ht : l.accepts t = true := (mem_scan.mp (h ▸ by simp : t ∈ m.scan l)).2
    have hsorted := (m.pairwise_scan l).imp fun {u v} h => Arrangement.compare_eq_lt_iff.mp h
    rw [h, List.pairwise_append, List.pairwise_cons] at hsorted
    obtain ⟨-, ⟨hys, -⟩, hxs⟩ := hsorted
    have hxs : ∀ u ∈ xs, ¬l.arrangement.key t < l.arrangement.key u := fun u hu =>
      (hxs u hu t List.mem_cons_self).not_gt
    show (m.triples.read l (some t)).take n = _
    rw [Indexes.read_some _ ht, ← List.filter_filter, ← scan_eq_filter, h,
      List.filter_append, List.filter_eq_nil_iff.mpr (by simpa using hxs),
      List.nil_append, List.filter_cons_of_neg (by simp),
      List.filter_eq_self.mpr (by simpa using hys)]

end MemoryStore

end TripleScript
