import Mathlib.Data.Prod.Lex
import TripleScript.Proofs.Plan.Connected

/-!
# Which scan comes next

After the first scan, the next one is to be chosen among the scans that are
tied to what is bound. Patterns of one group seem to warrant that there always
is one: a slot that is bound and a slot that is not are linked by some pattern.
But a scan without slots binds nothing. If the cheapest scan is of this kind,
it opens the join, the others of its kind follow, and then there are only scans
with slots and no slot to tie them to. The first of those in the statement is
taken, whatever the estimates say.

`JoinOrder.Reaches` are the rounds of the ordering: what has been put in order
and what is left. The choice of a round is the least of the scans that are tied
(`JoinOrder.isLeast_of_least?`), and there is none exactly in the round just
described (`JoinOrder.pick?_eq_none_iff`); it is reached exactly if the order
begins with a scan without slots (`JoinOrder.exists_guards_only`).
`next_scan_least_or_guards_only` puts this together.
-/

namespace TripleScript

/-! ## Ranks in order -/

namespace Rank

/-- The three numbers of a rank, to be compared one after the other. -/
def key (r : Rank) : ℕ ×ₗ ℕ ×ₗ ℕ := toLex (r.1, toLex r.2)

/-- **Ranks are compared lexicographically.** -/
theorem before_iff {r r' : Rank} : r.before r' = true ↔ r.key < r'.key := by
  simp [before, key, Prod.Lex.toLex_lt_toLex]

theorem before_eq_false_iff {r r' : Rank} : r.before r' = false ↔ r'.key ≤ r.key := by
  rw [← Bool.not_eq_true, before_iff, not_lt]

/-- Of two different ranks one comes before the other. -/
theorem before_of_ne {r r' : Rank} (h : r'.before r = false) (hne : r ≠ r') :
    r.before r' = true := by
  refine before_iff.mpr (lt_of_le_of_ne (before_eq_false_iff.mp h) fun heq => hne ?_)
  exact Prod.ext (congrArg (·.1) heq) (congrArg (·.2) heq)

end Rank

/-- A scan all of whose positions are fixed is tied to anything. -/
theorem ScanStep.isTied_of_slots_eq_nil {s : ScanStep} (hs : s.pattern.slots = [])
    (bound : List ℕ) : s.isTied bound = true := by
  have hlength := s.pattern.constants_add_length_slots
  rw [hs, List.length_nil, Nat.add_zero] at hlength
  simp [isTied, hlength]

namespace JoinOrder

section Least

variable {eligible : ScanStep → Bool} {rank : ScanStep → Rank} {pending : List ScanStep}

/-- **No eligible scan comes before the one that is chosen.** -/
theorem isLeast_of_least? {place : ℕ} {r : Rank}
    (h : least? eligible rank pending = some (place, r)) :
    (∃ s, pending[place]? = some s ∧ rank s = r)
      ∧ ∀ c ∈ pending, eligible c = true → (rank c).before r = false := by
  induction pending generalizing place r with
  | nil => cases h
  | cons s rest ih =>
    rw [List.forall_mem_cons]
    rw [least?] at h
    split at h
    case h_1 => cases h
    case h_2 hs hrest =>
      cases h
      obtain ⟨hplace, hleast⟩ := ih hrest
      refine ⟨hplace, fun hs' => ?_, hleast⟩
      exact Bool.noConfusion (hs'.symm.trans hs)
    case h_3 hs hrest =>
      cases h
      refine ⟨⟨s, rfl, rfl⟩, fun _ => Rank.before_eq_false_iff.mpr le_rfl, fun c hc hc' => ?_⟩
      exact Bool.noConfusion (hc'.symm.trans (least?_eq_none_iff.mp hrest c hc))
    case h_4 i r' hs hrest =>
      obtain ⟨hplace, hleast⟩ := ih hrest
      split at h
      case isTrue hbefore =>
        cases h
        have hlt := Rank.before_iff.mp hbefore
        exact ⟨hplace, fun _ => Rank.before_eq_false_iff.mpr hlt.le, hleast⟩
      case isFalse hbefore =>
        cases h
        have hle := Rank.before_eq_false_iff.mp (Bool.eq_false_iff.mpr hbefore)
        refine ⟨⟨s, rfl, rfl⟩, fun _ => Rank.before_eq_false_iff.mpr le_rfl, fun c hc hc' => ?_⟩
        have hc := Rank.before_eq_false_iff.mp (hleast c hc hc')
        exact Rank.before_eq_false_iff.mpr (hle.trans hc)

end Least

/-! ## Rounds -/

/-- What is bound when some scans are in order: nothing before the first. -/
def boundBy : List ScanStep → Option (List ℕ)
  | [] => none
  | front => some (front.flatMap (·.pattern.slots))

theorem boundBy_of_ne_nil {front : List ScanStep} (h : front ≠ []) :
    boundBy front = some (front.flatMap (·.pattern.slots)) := by
  cases front with
  | nil => exact absurd rfl h
  | cons s front => rfl

theorem getD_boundBy (front : List ScanStep) :
    (boundBy front).getD [] = front.flatMap (·.pattern.slots) := by
  cases front <;> rfl

/-- One scan more is in order. -/
theorem boundBy_concat (front : List ScanStep) (s : ScanStep) :
    boundBy (front ++ [s]) = some (bind (boundBy front) s) := by
  rw [boundBy_of_ne_nil (List.append_ne_nil_of_right_ne_nil _ (List.cons_ne_nil s [])),
    List.flatMap_append, List.flatMap_singleton, bind, getD_boundBy]

/-- **The rounds of the ordering**: some scans are in order, the others are
left, and in each round one more is put behind those in order. -/
inductive Reaches (scans : List ScanStep) : List ScanStep → List ScanStep → Prop
  /-- Before the first round. -/
  | start : Reaches scans [] scans
  /-- One round more. -/
  | next {front pending : List ScanStep} {s : ScanStep} (h : Reaches scans front pending)
      (hs : pending[(pick? (boundBy front) pending).getD 0]? = some s) :
      Reaches scans (front ++ [s]) (pending.eraseIdx ((pick? (boundBy front) pending).getD 0))

theorem arrange_of_getElem? {bound : Option (List ℕ)} {pending : List ScanStep} {s : ScanStep}
    (h : pending[(pick? bound pending).getD 0]? = some s) :
    arrange bound pending = s :: arrange (some (bind bound s))
      (pending.eraseIdx ((pick? bound pending).getD 0)) := by
  rw [arrange]
  split
  case h_1 hnone => cases hnone.symm.trans h
  case h_2 s' hs' =>
    cases hs'.symm.trans h
    rfl

/-- As long as scans are left, one of them comes next. -/
theorem exists_getElem?_pick? (bound : Option (List ℕ)) {pending : List ScanStep}
    (h : pending ≠ []) : ∃ s, pending[(pick? bound pending).getD 0]? = some s :=
  ⟨_, List.getElem?_eq_getElem (getD_pick?_lt_length bound h)⟩

namespace Reaches

variable {scans front pending : List ScanStep}

/-- **The scans in order are those of the rounds so far and what is made of
those left.** -/
theorem orderScans_eq (h : Reaches scans front pending) :
    orderScans scans = front ++ arrange (boundBy front) pending := by
  induction h with
  | start => rfl
  | next _ hs ih =>
    rw [ih, arrange_of_getElem? hs, boundBy_concat, List.append_assoc, List.singleton_append]

/-- What is left stands in the order of the statement. -/
theorem sublist (h : Reaches scans front pending) : pending.Sublist scans := by
  induction h with
  | start => exact List.Sublist.refl scans
  | next _ _ ih => exact (List.eraseIdx_sublist _ _).trans ih

/-- **Every round keeps track of the patterns.** -/
theorem progress {patterns : List SlotPattern} (hpatterns : scans.map ScanStep.pattern = patterns)
    (h : Reaches scans front pending) :
    Progress patterns (front.flatMap (·.pattern.slots)) pending := by
  induction h with
  | start =>
    refine ⟨fun p hp => .inl (hpatterns ▸ hp), fun s hs => ?_, nofun⟩
    exact hpatterns ▸ List.mem_map_of_mem hs
  | @next front pending s _ hs ih =>
    rw [← getD_boundBy] at ih
    have hstep := ih.step hs
    rwa [bind, getD_boundBy, ← List.flatMap_singleton (fun t => t.pattern.slots) s,
      ← List.flatMap_append] at hstep

end Reaches

/-- Some scans bind no slot if none of them has one. -/
theorem flatMap_slots_eq_nil_iff {front : List ScanStep} :
    front.flatMap (·.pattern.slots) = [] ↔ ∀ s ∈ front, s.pattern.slots = [] :=
  List.flatMap_eq_nil_iff

section OneGroup

variable {patterns : List SlotPattern} {n : ℕ} {pending : List ScanStep}
  (hone : groupCount patterns n ≤ 1) (hlt : ∀ p ∈ patterns, ∀ i ∈ p.slots, i < n)

include hone hlt

/-- **Nothing is chosen exactly if nothing is bound and all scans that are left
have slots.** -/
theorem pick?_eq_none_iff {bound : List ℕ} (h : Progress patterns bound pending)
    (hpending : pending ≠ []) :
    pick? (some bound) pending = none ↔ bound = [] ∧ ∀ s ∈ pending, s.pattern.slots ≠ [] := by
  have hpick : pick? (some bound) pending = none ↔ ∀ s ∈ pending, s.isTied bound = false := by
    rw [pick?, Option.map_eq_none_iff, least?_eq_none_iff]
  rw [hpick]
  constructor
  · intro hloose
    have hslots : ∀ s ∈ pending, s.pattern.slots ≠ [] := fun s hs hnil =>
      Bool.noConfusion ((ScanStep.isTied_of_slots_eq_nil hnil bound).symm.trans (hloose s hs))
    refine ⟨?_, hslots⟩
    by_contra hbound
    obtain ⟨s, hs⟩ := List.exists_mem_of_ne_nil _ hpending
    obtain ⟨s', hs', htied⟩ := h.exists_tied hone hlt hbound hs (hslots s hs)
    exact Bool.noConfusion (htied.symm.trans (hloose s' hs'))
  · rintro ⟨rfl, hslots⟩ s hs
    rw [← Bool.not_eq_true, ScanStep.isTied_iff (hslots s hs)]
    rintro ⟨i, -, hi⟩
    exact List.not_mem_nil hi

end OneGroup

/-- While nothing is bound, what is chosen has no slot. -/
theorem slots_eq_nil_of_pick? {pending : List ScanStep} {place : ℕ} {s : ScanStep}
    (hpick : pick? (some []) pending = some place) (hs : pending[place]? = some s) :
    s.pattern.slots = [] := by
  obtain ⟨⟨_, r⟩, hleast, rfl⟩ := Option.map_eq_some_iff.mp hpick
  by_contra hslots
  obtain ⟨i, -, hi⟩ := (ScanStep.isTied_iff hslots).mp (eligible_of_least? hleast hs)
  exact List.not_mem_nil hi

/-- **Scans without slots come one after the other**: if the order begins with
some and others are left, a round comes in which only the others are left. -/
theorem exists_guards_only {scans front pending : List ScanStep}
    (h : Reaches scans front pending) (hfront : front ≠ [])
    (hguards : ∀ s ∈ front, s.pattern.slots = [])
    (hopen : ∃ s ∈ pending, s.pattern.slots ≠ []) :
    ∃ front' pending', Reaches scans front' pending' ∧ front' ≠ [] ∧ pending' ≠ []
      ∧ pick? (boundBy front') pending' = none := by
  generalize hlength : pending.length = length
  induction length generalizing front pending with
  | zero =>
    obtain ⟨s, hs, -⟩ := hopen
    rw [List.length_eq_zero_iff.mp hlength] at hs
    cases hs
  | succ length ih =>
    have hpending : pending ≠ [] := by
      rintro rfl
      cases hlength
    have hbound : boundBy front = some [] := by
      rw [boundBy_of_ne_nil hfront, flatMap_slots_eq_nil_iff.mpr hguards]
    cases hpick : pick? (boundBy front) pending with
    | none => exact ⟨front, pending, h, hfront, hpending, hpick⟩
    | some place =>
      obtain ⟨s, hs⟩ := exists_getElem?_pick? (boundBy front) hpending
      have hguard : s.pattern.slots = [] := by
        refine slots_eq_nil_of_pick? (hbound ▸ hpick) ?_
        rwa [hpick] at hs
      obtain ⟨hlt', hget⟩ := List.getElem?_eq_some_iff.mp hs
      have hperm := List.getElem_cons_eraseIdx_perm hlt'
      refine ih (h.next hs) (List.append_ne_nil_of_left_ne_nil hfront _) ?_ ?_ ?_
      · exact List.forall_mem_append.mpr ⟨hguards, List.forall_mem_singleton.mpr hguard⟩
      · obtain ⟨c, hc, hslots⟩ := hopen
        rcases List.mem_cons.mp (hperm.mem_iff.mpr hc) with rfl | hc
        · exact absurd (hget ▸ hguard) hslots
        · exact ⟨c, hc, hslots⟩
      · rw [List.length_eraseIdx_of_lt hlt', hlength, Nat.add_sub_cancel]

/-- **The scan that is chosen is the least of those that are tied**, and no
other is as low: scans have different places in the statement. -/
theorem isLeast_of_pick? {scans front pending : List ScanStep}
    (hsources : (scans.map ScanStep.source).Nodup) (h : Reaches scans front pending)
    {bound : List ℕ} {place : ℕ} (hpick : pick? (some bound) pending = some place) :
    ∃ s, pending[place]? = some s ∧ s.isTied bound = true
      ∧ ∀ c ∈ pending, c.isTied bound = true → c ≠ s →
        (s.joiningRank bound).before (c.joiningRank bound) = true := by
  obtain ⟨⟨_, r⟩, hleast, rfl⟩ := Option.map_eq_some_iff.mp hpick
  obtain ⟨⟨s, hs, rfl⟩, hbefore⟩ := isLeast_of_least? hleast
  refine ⟨s, hs, eligible_of_least? hleast hs, fun c hc htied hne => ?_⟩
  refine Rank.before_of_ne (hbefore c hc htied) fun hrank => hne ?_
  have hsource : c.source = s.source := (congrArg (·.2.2) hrank).symm
  have hmem := h.sublist.subset
  exact List.inj_on_of_nodup_map hsources (hmem hc) (hmem (List.mem_of_getElem? hs)) hsource

end JoinOrder

open JoinOrder

/-- **After the first scan, the next one is the least of those that are tied, as
long as one is tied.** The patterns are those of a compiled query and of one
group, the estimates are arbitrary. In each round behind the first, none of the
scans left is tied exactly if the scans in order have no slots and those left
all have some; otherwise the scan that is taken is tied, and it is the least of
those that are, by the number of its open positions, its estimate and its place
in the statement. A round without a tied scan comes exactly if the order begins
with a scan without slots and there is one with slots. -/
theorem next_scan_least_or_guards_only {st : SelectStatement} {q : Query}
    (hq : st.compile = .ok q) (hone : groupCount q.patterns q.slots.length ≤ 1)
    {scans : List ScanStep} (hpatterns : scans.map ScanStep.pattern = q.patterns)
    (hsources : scans.map ScanStep.source = List.range q.patterns.length) :
    (∀ front pending, Reaches scans front pending → front ≠ [] → pending ≠ [] →
        let bound := front.flatMap (·.pattern.slots)
        orderScans scans = front ++ arrange (some bound) pending
          ∧ (pick? (some bound) pending = none ↔
              (∀ s ∈ front, s.pattern.slots = []) ∧ ∀ s ∈ pending, s.pattern.slots ≠ [])
          ∧ ∀ place, pick? (some bound) pending = some place →
              ∃ s, pending[place]? = some s ∧ s.isTied bound = true
                ∧ ∀ c ∈ pending, c.isTied bound = true → c ≠ s →
                  (s.joiningRank bound).before (c.joiningRank bound) = true)
      ∧ ((∃ front pending, Reaches scans front pending ∧ front ≠ [] ∧ pending ≠ []
            ∧ pick? (boundBy front) pending = none) ↔
          ∃ guard rest, orderScans scans = guard :: rest ∧ guard.pattern.slots = []
            ∧ ∃ s ∈ rest, s.pattern.slots ≠ []) := by
  have hlt := (compiles_of_compile hq).binds.1
  have hnodup : (scans.map ScanStep.source).Nodup := hsources ▸ List.nodup_range
  have hnone : ∀ {front pending}, Reaches scans front pending → pending ≠ [] →
      (pick? (some (front.flatMap (·.pattern.slots))) pending = none ↔
        (∀ s ∈ front, s.pattern.slots = []) ∧ ∀ s ∈ pending, s.pattern.slots ≠ []) := by
    intro front pending hreach hpending
    rw [pick?_eq_none_iff hone hlt (hreach.progress hpatterns) hpending, flatMap_slots_eq_nil_iff]
  refine ⟨fun front pending hreach hfront hpending => ⟨?_, hnone hreach hpending, fun place => ?_⟩,
    ?_, ?_⟩
  · rw [← boundBy_of_ne_nil hfront]
    exact hreach.orderScans_eq
  · exact isLeast_of_pick? hnodup hreach
  · rintro ⟨front, pending, hreach, hfront, hpending, hpick⟩
    rw [boundBy_of_ne_nil hfront, hnone hreach hpending] at hpick
    obtain ⟨hguards, hopen⟩ := hpick
    obtain ⟨guard, front, rfl⟩ := List.exists_cons_of_ne_nil hfront
    obtain ⟨s, hs⟩ := List.exists_mem_of_ne_nil _ hpending
    refine ⟨guard, _, hreach.orderScans_eq, hguards guard List.mem_cons_self, s, ?_, hopen s hs⟩
    exact List.mem_append_right _ ((arrange_perm _ _).mem_iff.mpr hs)
  · rintro ⟨guard, rest, horder, hguard, s, hs, hslots⟩
    have hscans : scans ≠ [] := by
      rintro rfl
      have hnil := (orderScans_perm []).eq_nil
      cases hnil.symm.trans horder
    obtain ⟨first, hfirst⟩ := exists_getElem?_pick? (boundBy []) hscans
    have hreach := Reaches.start.next hfirst
    have heq := hreach.orderScans_eq
    rw [horder, List.nil_append, List.singleton_append] at heq
    obtain ⟨rfl, hrest⟩ := List.cons.inj heq
    refine exists_guards_only hreach (List.cons_ne_nil _ _) ?_ ⟨s, ?_, hslots⟩
    · exact List.forall_mem_singleton.mpr hguard
    · exact (arrange_perm _ _).mem_iff.mp (hrest ▸ hs)

/-- A query with a condition that is not the cheapest of its patterns. -/
def lateCondition : SelectStatement where
  distinct := false
  projection := .vars ["s"]
  patterns :=
    [⟨.node ⟨"g"⟩, .node ⟨"is"⟩, .node ⟨"set"⟩, default⟩,
      ⟨.var "s", .node ⟨"likes"⟩, .var "o", default⟩,
      ⟨.var "s", .node ⟨"knows"⟩, .var "n", default⟩]
  limit := none

/-- Its scans, with estimates. -/
def lateConditionScans : List ScanStep :=
  [⟨⟨.const ⟨"g"⟩, .const ⟨"is"⟩, .const ⟨"set"⟩⟩, 0, 2⟩,
    ⟨⟨.slot 0, .const ⟨"likes"⟩, .slot 1⟩, 1, 1⟩,
    ⟨⟨.slot 0, .const ⟨"knows"⟩, .slot 2⟩, 2, 3⟩]

/-- Its order begins with a scan that has slots, and so a scan is tied in every
round behind the first. -/
theorem next_scan_least_of_late_condition :
    ∃ q, lateCondition.compile = .ok q ∧ groupCount q.patterns q.slots.length ≤ 1
      ∧ lateConditionScans.map ScanStep.pattern = q.patterns
      ∧ lateConditionScans.map ScanStep.source = List.range q.patterns.length
      ∧ (orderScans lateConditionScans).map ScanStep.source = [1, 0, 2]
      ∧ ∀ front pending, Reaches lateConditionScans front pending → front ≠ [] → pending ≠ [] →
        pick? (boundBy front) pending ≠ none := by
  have hq : lateCondition.compile = .ok ⟨["?s", "?o", "?n"],
      lateConditionScans.map ScanStep.pattern, [0], false, none⟩ := by
    rfl
  have horder : orderScans lateConditionScans
      = [⟨⟨.slot 0, .const ⟨"likes"⟩, .slot 1⟩, 1, 1⟩,
        ⟨⟨.const ⟨"g"⟩, .const ⟨"is"⟩, .const ⟨"set"⟩⟩, 0, 2⟩,
        ⟨⟨.slot 0, .const ⟨"knows"⟩, .slot 2⟩, 2, 3⟩] := by
    decide +kernel
  have hone : groupCount (lateConditionScans.map ScanStep.pattern) 3 ≤ 1 := by decide
  refine ⟨_, hq, hone, rfl, rfl, by rw [horder]; rfl, ?_⟩
  intro front pending hreach hfront hpending hpick
  obtain ⟨guard, rest, hguard, hslots, -⟩ :=
    (next_scan_least_or_guards_only hq hone rfl rfl).2.mp
      ⟨front, pending, hreach, hfront, hpending, hpick⟩
  cases horder.symm.trans hguard
  cases hslots

/-- A query with a condition that is the cheapest of its patterns. -/
def earlyCondition : List ScanStep :=
  [⟨⟨.slot 0, .const ⟨"likes"⟩, .slot 1⟩, 0, 3⟩, ⟨⟨.slot 0, .const ⟨"knows"⟩, .slot 1⟩, 1, 2⟩,
    ⟨⟨.const ⟨"g"⟩, .const ⟨"is"⟩, .const ⟨"set"⟩⟩, 2, 1⟩]

/-- **Behind a condition, nothing is tied**: the patterns are of one group, the
condition comes first, and then the scan with the estimate 3 is taken before the
one with the estimate 2, because it stands first in the statement. -/
theorem not_tied_behind_early_condition :
    (∃ q, Command.compile "SELECT ?s WHERE (?s, likes, ?o), (?s, knows, ?o), (g, is, set)"
        = .ok (.select q)
      ∧ q.patterns = earlyCondition.map ScanStep.pattern ∧ q.slots.length = 2)
      ∧ groupCount (earlyCondition.map ScanStep.pattern) 2 = 1
      ∧ Reaches earlyCondition (earlyCondition.drop 2) (earlyCondition.take 2)
      ∧ (∀ s ∈ earlyCondition.take 2,
          s.isTied ((earlyCondition.drop 2).flatMap (·.pattern.slots)) = false)
      ∧ pick? (boundBy (earlyCondition.drop 2)) (earlyCondition.take 2) = none
      ∧ (orderScans earlyCondition).map (fun s => (s.source, s.estimate))
        = [(2, 1), (0, 3), (1, 2)] := by
  refine ⟨⟨⟨["?s", "?o"], earlyCondition.map ScanStep.pattern, [0], false, none⟩, ?_, rfl, rfl⟩,
    by decide, ?_, by decide, by decide, by decide +kernel⟩
  · decide +kernel
  · exact .next .start rfl

end TripleScript
