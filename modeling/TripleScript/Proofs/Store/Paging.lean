import TripleScript.Proofs.Store.History

/-!
# Paging while others write

Reading page by page takes time, and between two pages other clients may
insert and erase what they like, the cursor not excepted. An index finds the
place behind the cursor by its order, whether the cursor is still there or
not. So whatever has been read comes before the cursor or is the cursor, what
is still to be read comes behind it, and no write moves a triple from one side
to the other.

`MemoryStore.readsAmid` is the paging, with the calls of the other clients in
the gaps between the pages. What holds of it behind a cursor is
`Lookup.Paged`; it holds of the last page (`Lookup.Paged.last`) and comes to
one page more in front (`Lookup.Paged.cons`). That a paging comes to its end
once nobody writes any more is `MemoryStore.exists_isOver_readsAmid`: every
full page leaves fewer triples behind the next cursor. `paging_amid_writes`
puts the two together.
-/

namespace TripleScript

/-! ## Pages and gaps -/

/-- A page that was read. -/
structure PageRead where
  /-- The store it was read from, as it was at that moment. -/
  store : MemoryStore
  /-- The triples on it. -/
  page : List Triple

/-- **A paging amid writes.** Pages of `n` triples are read from the index,
each from behind the last triple of the page before, up to the first page that
is shorter. In the gap between two pages other clients make some calls; when
there is no further gap, the paging is left where it is. -/
def MemoryStore.readsAmid (l : Lookup) (n : ℕ) :
    List (List StoreCall) → MemoryStore → Option Triple → List PageRead
  | [], m, after => [⟨m, m.page .indexed l after n⟩]
  | calls :: gaps, m, after =>
    let page := m.page .indexed l after n
    ⟨m, page⟩ :: if page.length < n then []
      else readsAmid l n gaps (calls.foldl StoreCall.apply m) page.getLast?

/-- The triples that were read, page by page. -/
def triplesRead (reads : List PageRead) : List Triple := reads.flatMap PageRead.page

/-- **A paging is over** when its last page is short. -/
def IsOver (n : ℕ) (reads : List PageRead) : Prop :=
  ∃ r ∈ reads.getLast?, r.page.length < n

theorem IsOver.cons {n : ℕ} {reads : List PageRead} (h : IsOver n reads) (r : PageRead) :
    IsOver n (r :: reads) := by
  obtain ⟨last, hlast, hshort⟩ := h
  refine ⟨last, ?_, hshort⟩
  rw [List.getLast?_cons, Option.mem_def.mp hlast]
  rfl

/-- Only a short page ends a paging. -/
theorem IsOver.of_cons {n : ℕ} {reads : List PageRead} {r : PageRead}
    (h : IsOver n (r :: reads)) (hfull : n ≤ r.page.length) : IsOver n reads := by
  obtain ⟨last, hlast, hshort⟩ := h
  cases reads with
  | nil =>
    cases hlast
    exact absurd hshort (not_lt.mpr hfull)
  | cons r' reads => exact ⟨last, by rwa [List.getLast?_cons_cons] at hlast, hshort⟩

/-! ## What comes behind a cursor -/

/-- A triple comes behind the cursor, if there is one. -/
def Lookup.ComesBehind (l : Lookup) (after : Option Triple) (t : Triple) : Prop :=
  ∀ cursor ∈ after, l.arrangement.compare cursor t = .lt

instance (l : Lookup) (after : Option Triple) : DecidablePred (l.ComesBehind after) :=
  fun _ => inferInstanceAs (Decidable (∀ _ ∈ _, _))

variable {l : Lookup} {m : MemoryStore} {after : Option Triple} {n : ℕ}

/-- The order in which a lookup reads is transitive. -/
theorem Lookup.compare_trans {t u v : Triple} (h : l.arrangement.compare t u = .lt)
    (h' : l.arrangement.compare u v = .lt) : l.arrangement.compare t v = .lt :=
  Std.TransCmp.lt_trans h h'

/-- What comes behind a triple that comes behind the cursor does so too. -/
theorem Lookup.ComesBehind.trans {t u : Triple} (ht : l.ComesBehind after t)
    (hu : l.arrangement.compare t u = .lt) : l.ComesBehind after u :=
  fun cursor hcursor => compare_trans (ht cursor hcursor) hu

namespace MemoryStore

/-- The triples of a scan that come behind a cursor. -/
def scanBehind (m : MemoryStore) (l : Lookup) (after : Option Triple) : List Triple :=
  (m.scan l).filter fun t => decide (l.ComesBehind after t)

theorem mem_scanBehind {t : Triple} :
    t ∈ m.scanBehind l after ↔ (t ∈ m.triples ∧ l.accepts t = true) ∧ l.ComesBehind after t := by
  rw [scanBehind, List.mem_filter, mem_scan, decide_eq_true_eq]

theorem pairwise_scanBehind (m : MemoryStore) (l : Lookup) (after : Option Triple) :
    (m.scanBehind l after).Pairwise fun t u => l.arrangement.compare t u = .lt :=
  (m.pairwise_scan l).filter _

/-- **A page is the front part of what comes behind its cursor**, whether the
store still has the cursor or not. -/
theorem page_eq_take_scanBehind (hafter : ∀ cursor ∈ after, l.accepts cursor = true) (n : ℕ) :
    m.page .indexed l after n = (m.scanBehind l after).take n := by
  cases after with
  | none =>
    rw [page_none, scanBehind, List.filter_eq_self.mpr fun t _ => decide_eq_true nofun]
  | some cursor =>
    have hread : m.triples.read l (some cursor) = m.scanBehind l (some cursor) := by
      rw [Indexes.read_some _ (hafter cursor rfl), scanBehind, scan_eq_filter, List.filter_filter]
      refine List.filter_congr fun t _ => ?_
      simp [Lookup.ComesBehind, Arrangement.compare_eq_lt_iff]
    rw [← hread]
    rfl

/-- **What a page has to do with the store behind its cursor.** -/
structure IsPage (m : MemoryStore) (l : Lookup) (n : ℕ) (after : Option Triple)
    (page : List Triple) : Prop where
  /-- It is in order. -/
  sorted : page.Pairwise fun t u => l.arrangement.compare t u = .lt
  /-- Its triples come behind the cursor. -/
  mem_scanBehind : ∀ t ∈ page, t ∈ m.scanBehind l after
  /-- Nothing is passed over: what else comes behind the cursor comes behind
  the last triple of the page, and the page is full. -/
  mem_or_comesBehind : ∀ t ∈ m.scanBehind l after,
    t ∈ page ∨ n ≤ page.length ∧ l.ComesBehind page.getLast? t

/-- **A page from the index is such a page.** -/
theorem isPage_page (hafter : ∀ cursor ∈ after, l.accepts cursor = true) :
    m.IsPage l n after (m.page .indexed l after n) := by
  rw [page_eq_take_scanBehind hafter]
  have hsorted := m.pairwise_scanBehind l after
  refine ⟨hsorted.take, fun t ht => List.mem_of_mem_take ht, fun t ht => ?_⟩
  rw [← List.take_append_drop n (m.scanBehind l after)] at ht hsorted
  rcases List.mem_append.mp ht with hfront | hrest
  · exact .inl hfront
  · have hlen := List.length_pos_of_mem hrest
    rw [List.length_drop] at hlen
    refine .inr ⟨by rw [List.length_take]; omega, fun last hlast => ?_⟩
    exact (List.pairwise_append.mp hsorted).2.2 last (List.mem_of_mem_getLast? hlast) t hrest

/-- What is known of a triple on a page. -/
theorem IsPage.of_mem {page : List Triple} (h : m.IsPage l n after page) {t : Triple}
    (ht : t ∈ page) : (t ∈ m.triples ∧ l.accepts t = true) ∧ l.ComesBehind after t :=
  MemoryStore.mem_scanBehind.mp (h.mem_scanBehind t ht)

/-- So the next cursor is accepted. -/
theorem IsPage.accepts_last {page : List Triple} (h : m.IsPage l n after page) :
    ∀ last ∈ page.getLast?, l.accepts last = true :=
  fun _ hlast => (h.of_mem (List.mem_of_mem_getLast? hlast)).1.2

end MemoryStore

/-! ## Pagings -/

/-- **What holds of a paging behind a cursor**, whatever others write. -/
structure Lookup.Paged (l : Lookup) (n : ℕ) (after : Option Triple) (reads : List PageRead) :
    Prop where
  /-- The triples come in order, so none comes twice. -/
  sorted : (triplesRead reads).Pairwise fun t u => l.arrangement.compare t u = .lt
  /-- They come behind the cursor. -/
  behind : ∀ t ∈ triplesRead reads, l.ComesBehind after t
  /-- They are accepted, and the store had them when their page was read. -/
  stored : ∀ r ∈ reads, ∀ t ∈ r.page, l.accepts t = true ∧ t ∈ r.store.triples
  /-- And what the store had at every page was read. -/
  complete : IsOver n reads → ∀ t, l.accepts t = true → l.ComesBehind after t →
    (∀ r ∈ reads, t ∈ r.store.triples) → t ∈ triplesRead reads

namespace Lookup

variable {page : List Triple}

/-- The page with which a paging ends, or is left. -/
theorem Paged.last (h : m.IsPage l n after page) : l.Paged n after [⟨m, page⟩] := by
  have hread : triplesRead [⟨m, page⟩] = page := List.append_nil _
  refine ⟨?_, fun t ht => ?_, fun r hr t ht => ?_, ?_⟩
  · rw [hread]
    exact h.sorted
  · rw [hread] at ht
    exact (h.of_mem ht).2
  · cases List.mem_singleton.mp hr
    exact (h.of_mem ht).1.symm
  · rintro ⟨r, hr, hshort⟩ t ht hbehind hstored
    cases hr
    rw [hread]
    have hstored := hstored _ (List.mem_singleton.mpr rfl)
    rcases h.mem_or_comesBehind t (MemoryStore.mem_scanBehind.mpr ⟨⟨hstored, ht⟩, hbehind⟩)
      with hpage | ⟨hfull, -⟩
    · exact hpage
    · exact absurd hshort (not_lt.mpr hfull)

/-- **One page more in front**: it is full, and the paging goes on behind its
last triple, on a store of which nothing is known. -/
theorem Paged.cons (hn : 1 ≤ n) (h : m.IsPage l n after page) (hfull : n ≤ page.length)
    {reads : List PageRead} (hreads : l.Paged n page.getLast? reads) :
    l.Paged n after (⟨m, page⟩ :: reads) := by
  obtain ⟨front, last, rfl⟩ : ∃ front last, page = front ++ [last] :=
    (List.eq_nil_or_concat' page).resolve_left (List.ne_nil_of_length_pos (by omega))
  rw [List.getLast?_concat] at hreads
  have hread : triplesRead (⟨m, front ++ [last]⟩ :: reads) = front ++ [last] ++ triplesRead reads :=
    rfl
  have hlast : last ∈ front ++ [last] := List.mem_append_right _ (List.mem_singleton.mpr rfl)
  have hlater : ∀ t ∈ triplesRead reads, l.arrangement.compare last t = .lt := fun t ht =>
    hreads.behind t ht last rfl
  refine ⟨?_, fun t ht => ?_, ?_, fun hover t ht hbehind hstored => ?_⟩
  · rw [hread]
    refine List.pairwise_append.mpr ⟨h.sorted, hreads.sorted, fun u hu t ht => ?_⟩
    -- what stands in front of the last triple of the page comes before it
    rcases List.mem_append.mp hu with hu | hu
    · have hfront := (List.pairwise_append.mp h.sorted).2.2 u hu last (List.mem_singleton.mpr rfl)
      exact compare_trans hfront (hlater t ht)
    · rw [List.mem_singleton.mp hu]
      exact hlater t ht
  · rw [hread] at ht
    rcases List.mem_append.mp ht with ht | ht
    · exact (h.of_mem ht).2
    · exact (h.of_mem hlast).2.trans (hlater t ht)
  · exact List.forall_mem_cons.mpr ⟨fun t ht => (h.of_mem ht).1.symm, hreads.stored⟩
  · rw [hread]
    obtain ⟨hhere, hlater⟩ := List.forall_mem_cons.mp hstored
    rcases h.mem_or_comesBehind t (MemoryStore.mem_scanBehind.mpr ⟨⟨hhere, ht⟩, hbehind⟩)
      with hpage | ⟨-, hnext⟩
    · exact List.mem_append_left _ hpage
    · rw [List.getLast?_concat] at hnext
      exact List.mem_append_right _ (hreads.complete (hover.of_cons hfull) t ht hnext hlater)

end Lookup

namespace MemoryStore

/-- **Every paging amid writes is as it should be.** -/
theorem paged_readsAmid (hn : 1 ≤ n) (gaps : List (List StoreCall))
    (hafter : ∀ cursor ∈ after, l.accepts cursor = true) :
    l.Paged n after (readsAmid l n gaps m after) := by
  induction gaps generalizing m after with
  | nil => exact .last (isPage_page hafter)
  | cons calls gaps ih =>
    have hpage : m.IsPage l n after (m.page .indexed l after n) := isPage_page hafter
    rw [readsAmid]
    split
    case isTrue => exact .last hpage
    case isFalse hfull => exact .cons hn hpage (not_lt.mp hfull) (ih hpage.accepts_last)

/-- **Every page with a triple on it leaves less behind the next cursor.** -/
theorem IsPage.length_scanBehind_lt {page : List Triple} {last : Triple}
    (h : m.IsPage l n after page) (hlast : last ∈ page.getLast?) :
    (m.scanBehind l (some last)).length < (m.scanBehind l after).length := by
  have hmem := List.mem_of_mem_getLast? hlast
  have hbehind := (h.of_mem hmem).2
  have hfilter : m.scanBehind l (some last)
      = (m.scanBehind l after).filter fun t => decide (l.ComesBehind (some last) t) := by
    rw [scanBehind, scanBehind, List.filter_filter]
    refine List.filter_congr fun t _ => ?_
    rw [← Bool.decide_and, decide_eq_decide]
    exact ⟨fun ht => ⟨ht, hbehind.trans (ht last rfl)⟩, And.left⟩
  rw [hfilter]
  refine List.length_filter_lt_length_iff_exists.mpr ⟨last, h.mem_scanBehind last hmem, ?_⟩
  rw [decide_eq_true_eq]
  exact fun hself => l.arrangement.compare_self_ne_lt last (hself last rfl)

/-- **A paging comes to its end** once nobody writes any more. -/
theorem exists_isOver_of_quiet (hn : 1 ≤ n) (m : MemoryStore)
    (hafter : ∀ cursor ∈ after, l.accepts cursor = true) :
    ∃ k, IsOver n (readsAmid l n (List.replicate k []) m after) := by
  generalize hlength : (m.scanBehind l after).length = length
  induction length using Nat.strong_induction_on generalizing after with
  | _ length ih =>
    have hpage : m.IsPage l n after (m.page .indexed l after n) := isPage_page hafter
    by_cases hshort : (m.page .indexed l after n).length < n
    · exact ⟨0, _, rfl, hshort⟩
    · cases hlast : (m.page .indexed l after n).getLast? with
      | none =>
        rw [List.getLast?_eq_none_iff.mp hlast] at hshort
        exact absurd hn hshort
      | some last =>
        obtain ⟨k, hk⟩ := ih _ (hlength ▸ hpage.length_scanBehind_lt hlast)
          (hlast ▸ hpage.accepts_last) rfl
        refine ⟨k + 1, ?_⟩
        rw [List.replicate_succ, readsAmid, if_neg hshort, hlast]
        exact hk.cons _

/-- It does so behind whatever was written before. -/
theorem exists_isOver_readsAmid (hn : 1 ≤ n) (gaps : List (List StoreCall)) (m : MemoryStore)
    (hafter : ∀ cursor ∈ after, l.accepts cursor = true) :
    ∃ k, IsOver n (readsAmid l n (gaps ++ List.replicate k []) m after) := by
  induction gaps generalizing m after with
  | nil => exact exists_isOver_of_quiet hn m hafter
  | cons calls gaps ih =>
    by_cases hshort : (m.page .indexed l after n).length < n
    · refine ⟨0, ⟨m, m.page .indexed l after n⟩, ?_, hshort⟩
      rw [List.cons_append, readsAmid, if_pos hshort]
      rfl
    · obtain ⟨k, hk⟩ := ih (calls.foldl StoreCall.apply m) (isPage_page hafter).accepts_last
      refine ⟨k, ?_⟩
      rw [List.cons_append, readsAmid, if_neg hshort]
      exact hk.cons _

end MemoryStore

/-- **Paging by cursor is safe while others write.** Whatever calls other
clients make between the pages – the cursor itself may be erased – the pages
come in the order of the index that serves the lookup, without a repetition;
each triple on them is accepted and was in the store when its page was read;
and if the paging is over, each triple that is accepted and was in the store
all along has been read exactly once. The paging is over at the latest some
pages behind the last write. -/
theorem paging_amid_writes (m : MemoryStore) (l : Lookup) {n : ℕ} (hn : 1 ≤ n)
    (gaps : List (List StoreCall)) :
    let reads := MemoryStore.readsAmid l n gaps m none
    (triplesRead reads).Pairwise (fun t u => l.arrangement.compare t u = .lt)
      ∧ (∀ r ∈ reads, ∀ t ∈ r.page, l.accepts t = true ∧ t ∈ r.store.triples)
      ∧ (IsOver n reads → ∀ t, l.accepts t = true → (∀ r ∈ reads, t ∈ r.store.triples) →
          (triplesRead reads).count t = 1)
      ∧ ∃ k, IsOver n (MemoryStore.readsAmid l n (gaps ++ List.replicate k []) m none) := by
  intro reads
  have hpaged : l.Paged n none reads := MemoryStore.paged_readsAmid hn gaps nofun
  have hnodup : (triplesRead reads).Nodup := Arrangement.nodup_of_pairwise hpaged.sorted
  exact ⟨hpaged.sorted, hpaged.stored,
    fun hover t ht hstored =>
      List.count_eq_one_of_mem hnodup (hpaged.complete hover t ht nofun hstored),
    MemoryStore.exists_isOver_readsAmid hn gaps m nofun⟩

/-- A store with three triples that have the same subject and the same object. -/
def threeNotes : MemoryStore :=
  (StoreCall.insert [⟨⟨"a"⟩, ⟨"q"⟩, ⟨"x"⟩⟩, ⟨⟨"a"⟩, ⟨"r"⟩, ⟨"x"⟩⟩, ⟨⟨"a"⟩, ⟨"s"⟩, ⟨"x"⟩⟩]).apply
    { name := "notes" }

/-- They are read one by one. Behind the first page the triple on it is
erased, and another comes in that stands before it in the index. -/
def notesRead : List PageRead :=
  MemoryStore.readsAmid ⟨some ⟨"a"⟩, none, some ⟨"x"⟩⟩ 1
    [[.erase [⟨⟨"a"⟩, ⟨"q"⟩, ⟨"x"⟩⟩], .insert [⟨⟨"a"⟩, ⟨"p"⟩, ⟨"x"⟩⟩]], [], []] threeNotes none

/-- The cursor is gone when the second page is read, and the triple that has
been there all along is read once. -/
theorem paging_amid_writes_of_erased_cursor :
    1 ≤ 1 ∧ (∀ r ∈ notesRead.tail, ⟨⟨"a"⟩, ⟨"q"⟩, ⟨"x"⟩⟩ ∉ r.store.triples)
      ∧ (triplesRead notesRead).count ⟨⟨"a"⟩, ⟨"s"⟩, ⟨"x"⟩⟩ = 1 := by
  obtain ⟨-, -, hcomplete, -⟩ :=
    paging_amid_writes threeNotes ⟨some ⟨"a"⟩, none, some ⟨"x"⟩⟩ (le_refl 1)
      [[.erase [⟨⟨"a"⟩, ⟨"q"⟩, ⟨"x"⟩⟩], .insert [⟨⟨"a"⟩, ⟨"p"⟩, ⟨"x"⟩⟩]], [], []]
  have hover : IsOver 1 notesRead :=
    ⟨notesRead.getLast (by decide), List.getLast?_eq_some_getLast _, by decide⟩
  exact ⟨le_refl 1, by decide, hcomplete hover _ (by decide) (by decide)⟩

end TripleScript
