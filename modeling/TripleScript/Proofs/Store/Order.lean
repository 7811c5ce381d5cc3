import Mathlib.Data.Finset.Sort
import Mathlib.Data.Prod.Lex
import Mathlib.Data.String.Basic
import TripleScript.Store.Memory

/-!
# Indexes as sorted sets of keys

An index keeps its triples by their **key**: the three texts of a triple in
the order of the arrangement, compared lexicographically. What an index holds
is then a set, and what it lists is that set in increasing order of the keys
– there is only one such list, so a statement about an index can name it.

`Indexes.contents` is the set, `Indexes.map_key_toList` says that each of the
three indexes lists the keys of that one set in order, and
`map_key_eq_sort` is the step behind it, which serves every list that is
strictly increasing in an arrangement.
-/

namespace TripleScript

namespace Arrangement

/-- The key of a triple in an arrangement: its texts, the one compared first
in front. -/
def key (a : Arrangement) (t : Triple) : String ×ₗ String ×ₗ String :=
  toLex ((a.first t).text, toLex ((a.second t).text, (a.third t).text))

/-- **An arrangement compares keys**, lexicographically. -/
theorem compare_eq_lt_iff {a : Arrangement} {t u : Triple} :
    a.compare t u = .lt ↔ a.key t < a.key u := by
  unfold compare key
  rw [Prod.Lex.toLex_lt_toLex, Prod.Lex.toLex_lt_toLex]
  simp only [compareLex, compareOn, Ordering.then_eq_lt, compare_lt_iff_lt,
    compare_eq_iff_eq]

/-- A triple that does not come later comes before or is the same. -/
theorem compare_ne_gt_iff {a : Arrangement} {t u : Triple} :
    a.compare t u ≠ .gt ↔ ¬a.key u < a.key t := by
  rw [← compare_eq_lt_iff, ← Std.OrientedCmp.gt_iff_lt]

/-- The key says which triple it belongs to. -/
theorem key_injective (a : Arrangement) : Function.Injective a.key := by
  intro t u h
  refine eq_of_compare (a := a) ?_
  have hlt : a.compare t u ≠ .lt := fun hc =>
    absurd (compare_eq_lt_iff.mp hc) (by rw [h]; exact lt_irrefl _)
  have hgt : a.compare t u ≠ .gt := compare_ne_gt_iff.mpr (by rw [h]; exact lt_irrefl _)
  cases hc : a.compare t u with
  | lt => exact absurd hc hlt
  | eq => rfl
  | gt => exact absurd hc hgt

/-- No triple comes before itself. -/
theorem compare_self_ne_lt (a : Arrangement) (t : Triple) : a.compare t t ≠ .lt :=
  fun h => lt_irrefl _ (compare_eq_lt_iff.mp h)

/-- So a strictly increasing list has no repetition. -/
theorem nodup_of_pairwise {a : Arrangement} {ts : List Triple}
    (hts : ts.Pairwise fun t u => a.compare t u = .lt) : ts.Nodup :=
  hts.imp fun {t u} h => by
    rintro rfl
    exact a.compare_self_ne_lt t h

/-- **A strictly increasing list is the sorted set of its keys.** -/
theorem map_key_eq_sort {a : Arrangement} {ts : List Triple} {S : Finset Triple}
    (hts : ts.Pairwise fun t u => a.compare t u = .lt)
    (hmem : ∀ t, t ∈ ts ↔ t ∈ S) :
    ts.map a.key = (S.image a.key).sort := by
  have hlt : (ts.map a.key).Pairwise (· < ·) :=
    List.pairwise_map.mpr (hts.imp fun h => compare_eq_lt_iff.mp h)
  have hS : S.image a.key = (ts.map a.key).toFinset := by
    ext k
    simp only [Finset.mem_image, List.mem_toFinset, List.mem_map, hmem]
  rw [hS]
  exact ((List.toFinset_sort (· ≤ ·) (hlt.imp ne_of_lt)).mpr (hlt.imp le_of_lt)).symm

end Arrangement

namespace Indexes

/-- **The set that the indexes hold.** -/
def contents (ix : Indexes) : Finset Triple := (ix.toList .spo).toFinset

@[simp] theorem mem_contents {ix : Indexes} {t : Triple} : t ∈ ix.contents ↔ t ∈ ix := by
  rw [contents, List.mem_toFinset, mem_toList]

@[simp] theorem contents_empty : (∅ : Indexes).contents = ∅ :=
  Finset.eq_empty_of_forall_notMem fun t ht => not_mem_empty t (mem_contents.mp ht)

/-- **Each index lists the keys of the same set, in order.** -/
theorem map_key_toList (ix : Indexes) (a : Arrangement) :
    (ix.toList a).map a.key = (ix.contents.image a.key).sort :=
  Arrangement.map_key_eq_sort (ix.pairwise_toList a) fun t => by
    rw [mem_toList, mem_contents]

theorem nodup_toList (ix : Indexes) (a : Arrangement) : (ix.toList a).Nodup :=
  Arrangement.nodup_of_pairwise (ix.pairwise_toList a)

/-- **The size is the number of triples held.** -/
theorem size_eq_card (ix : Indexes) : ix.size = ix.contents.card := by
  rw [contents, List.toFinset_card_of_nodup (ix.nodup_toList .spo)]
  exact Std.ExtTreeSet.length_toList.symm

@[simp] theorem contents_insert (ix : Indexes) (t : Triple) :
    (ix.insert t).contents = Insert.insert t ix.contents := by
  ext u
  rw [mem_contents, mem_insert, Finset.mem_insert, mem_contents, eq_comm]

@[simp] theorem contents_erase (ix : Indexes) (t : Triple) :
    (ix.erase t).contents = ix.contents.erase t := by
  ext u
  rw [mem_contents, mem_erase, Finset.mem_erase, mem_contents, ne_comm]

end Indexes

end TripleScript
