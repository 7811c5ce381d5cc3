import Mathlib.Data.List.TakeWhile
import TripleScript.Proofs.Store.Paging

/-!
# Pages by place and pages by scan

A page can be had from an index, where the cursor is a place in the order, or
from a scan, where it is a place in the list. As long as the store has the
cursor the two places are one, and so are the pages
(`MemoryStore.page_scanning_of_mem`).

A cursor that has been erased since it was read is still a place in the order,
but it is nowhere in the list. The page from the index goes on behind it; the
page from the scan is empty, as if the scan had come to its end
(`MemoryStore.page_scanning_of_notMem`). So the two pages differ if and only
if the cursor is gone and something was still to be read behind it
(`page_agrees_iff_cursor_kept`), and a reader who takes the empty page for the
last one misses all of that.
-/

namespace TripleScript

namespace MemoryStore

variable {m : MemoryStore} {l : Lookup} {cursor : Triple} (n : ℕ)

/-- **Behind a cursor that the store has, the pages are the same.** -/
theorem page_scanning_of_mem (hmem : cursor ∈ m.triples) (haccepts : l.accepts cursor = true) :
    m.page .scanning l (some cursor) n = m.page .indexed l (some cursor) n := by
  obtain ⟨front, back, hscan⟩ := List.append_of_mem (mem_scan.mpr ⟨hmem, haccepts⟩)
  rw [page_of_scan_eq_append .scanning n hscan, page_of_scan_eq_append .indexed n hscan]

/-- **Behind a cursor that the store has not, a scan gives nothing.** -/
theorem page_scanning_of_notMem (hmem : cursor ∉ m.triples) :
    m.page .scanning l (some cursor) n = [] := by
  have hne : ∀ t ∈ m.scan l, (t != cursor) = true := by
    intro t ht
    rw [bne_iff_ne]
    rintro rfl
    exact hmem (mem_scan.mp ht).1
  show (behind cursor (m.scan l)).take n = []
  rw [behind, List.dropWhile_eq_nil_iff.mpr hne, List.drop_nil, List.take_nil]

/-- A page from the index is empty if it is to have no triple on it, or if there
is none behind the cursor. -/
theorem page_indexed_eq_nil_iff (haccepts : l.accepts cursor = true) :
    m.page .indexed l (some cursor) n = []
      ↔ n = 0 ∨ ∀ t ∈ m.triples, l.accepts t = true → l.arrangement.compare cursor t ≠ .lt := by
  have hafter : ∀ c ∈ some cursor, l.accepts c = true := by
    rintro c ⟨⟩
    exact haccepts
  rw [page_eq_take_scanBehind hafter, List.take_eq_nil_iff, List.eq_nil_iff_forall_not_mem]
  refine or_congr_right (forall_congr' fun t => ?_)
  rw [mem_scanBehind]
  constructor
  · intro hnone ht hl hbehind
    refine hnone ⟨⟨ht, hl⟩, ?_⟩
    rintro c ⟨⟩
    exact hbehind
  · rintro hnone ⟨⟨ht, hl⟩, hbehind⟩
    exact hnone ht hl (hbehind cursor rfl)

end MemoryStore

/-- **The two ways to a page agree if and only if the cursor was kept**, or no
triple is wanted or to be had behind it. The cursor may be any triple that the
lookup accepts, or none. From a cursor that was not kept, the index goes on with
the triples behind it, and the scan gives no triple at all. -/
theorem page_agrees_iff_cursor_kept (m : MemoryStore) (l : Lookup) {after : Option Triple}
    (hafter : ∀ cursor ∈ after, l.accepts cursor = true) (n : ℕ) :
    (m.page .scanning l after n = m.page .indexed l after n ↔
        ∀ cursor ∈ after, cursor ∈ m.triples ∨ n = 0
          ∨ ∀ t ∈ m.triples, l.accepts t = true → l.arrangement.compare cursor t ≠ .lt)
      ∧ m.page .indexed l after n = (m.scanBehind l after).take n
      ∧ ∀ cursor ∈ after, cursor ∉ m.triples → m.page .scanning l after n = [] := by
  refine ⟨?_, MemoryStore.page_eq_take_scanBehind hafter n, ?_⟩
  · cases after with
    | none =>
      rw [MemoryStore.page_none, MemoryStore.page_none]
      exact iff_of_true rfl nofun
    | some cursor =>
      have haccepts := hafter cursor rfl
      simp only [Option.mem_def, Option.some_inj, forall_eq']
      by_cases hmem : cursor ∈ m.triples
      · exact iff_of_true (MemoryStore.page_scanning_of_mem n hmem haccepts) (.inl hmem)
      · rw [MemoryStore.page_scanning_of_notMem n hmem, eq_comm,
          MemoryStore.page_indexed_eq_nil_iff n haccepts, or_iff_right hmem]
  · rintro cursor ⟨⟩ hmem
    exact MemoryStore.page_scanning_of_notMem n hmem

/-- A store with two triples. -/
def twoNotes : MemoryStore :=
  (StoreCall.insert [⟨⟨"a"⟩, ⟨"p"⟩, ⟨"o"⟩⟩, ⟨⟨"b"⟩, ⟨"p"⟩, ⟨"o"⟩⟩]).apply { name := "notes" }

/-- Behind the first one the pages agree as long as it is kept. -/
theorem page_agrees_of_kept_cursor :
    (∀ cursor ∈ some (⟨⟨"a"⟩, ⟨"p"⟩, ⟨"o"⟩⟩ : Triple), Lookup.any.accepts cursor = true)
      ∧ twoNotes.page .indexed .any (some ⟨⟨"a"⟩, ⟨"p"⟩, ⟨"o"⟩⟩) 1 = [⟨⟨"b"⟩, ⟨"p"⟩, ⟨"o"⟩⟩]
      ∧ twoNotes.page .scanning .any (some ⟨⟨"a"⟩, ⟨"p"⟩, ⟨"o"⟩⟩) 1
        = twoNotes.page .indexed .any (some ⟨⟨"a"⟩, ⟨"p"⟩, ⟨"o"⟩⟩) 1 := by
  have hafter : ∀ cursor ∈ some (⟨⟨"a"⟩, ⟨"p"⟩, ⟨"o"⟩⟩ : Triple),
      Lookup.any.accepts cursor = true := fun cursor _ => Lookup.accepts_any cursor
  refine ⟨hafter, by decide, (page_agrees_iff_cursor_kept twoNotes .any hafter 1).1.mpr ?_⟩
  rintro cursor ⟨⟩
  exact .inl (by decide)

/-- **Once it is erased they do not**: the scan gives an empty page, and the index
the triple that is left. -/
theorem page_disagrees_of_erased_cursor :
    let m := (StoreCall.erase [⟨⟨"a"⟩, ⟨"p"⟩, ⟨"o"⟩⟩]).apply twoNotes
    Lookup.any.accepts ⟨⟨"a"⟩, ⟨"p"⟩, ⟨"o"⟩⟩ = true
      ∧ m.page .scanning .any (some ⟨⟨"a"⟩, ⟨"p"⟩, ⟨"o"⟩⟩) 1 = []
      ∧ m.page .indexed .any (some ⟨⟨"a"⟩, ⟨"p"⟩, ⟨"o"⟩⟩) 1 = [⟨⟨"b"⟩, ⟨"p"⟩, ⟨"o"⟩⟩] := by
  decide

end TripleScript
