import TripleScript.Proofs.Plan.Groups
import TripleScript.Proofs.Plan.Sound

/-!
# Joining goes along shared slots

A join that shares no slot with the rows so far pairs each of them with
everything it finds. Scans are put in order so that this never happens between
scans that have slots: each of them, except the first one, shares a slot with
those before it (`join_order_connected`).

The order is made scan by scan, and what carries over from one to the next is
`JoinOrder.Progress`: a pattern is still left, or its slots are bound. If a
slot is bound and another one is not, then, the patterns being of one group,
a pattern has slots of both kinds; it must be left, so there is a scan that is
tied to what is bound, and one such scan is taken. A scan without slots binds
nothing. So after scans of this kind only, no scan with slots is tied, and the
first scan left opens the join.
-/

namespace TripleScript

/-- A scan has a slot unless all its positions are fixed. -/
theorem ScanStep.isTied_iff {s : ScanStep} {bound : List ℕ} (hs : s.pattern.slots ≠ []) :
    s.isTied bound = true ↔ ∃ i ∈ s.pattern.slots, i ∈ bound := by
  have hlength := s.pattern.constants_add_length_slots
  have hpos := List.length_pos_iff.mpr hs
  have hopen : (s.pattern.constants == 3) = false := by
    rw [beq_eq_false_iff_ne]
    omega
  simp [isTied, hopen]

namespace JoinOrder

variable {eligible : ScanStep → Bool} {rank : ScanStep → Rank} {pending : List ScanStep}

/-- Nothing is chosen where nothing is eligible. -/
theorem least?_eq_none_iff :
    least? eligible rank pending = none ↔ ∀ s ∈ pending, eligible s = false := by
  induction pending with
  | nil => simp [least?]
  | cons s rest ih =>
    rw [List.forall_mem_cons, ← ih, least?]
    split
    case h_1 hs hrest => simp [hs, hrest]
    case h_2 hs hrest => simp [hrest]
    case h_3 hs hrest => simp [hs]
    case h_4 hs hrest =>
      rw [hs]
      split <;> simp

/-- **What is chosen is eligible.** -/
theorem eligible_of_least? {place : ℕ} {r : Rank} {s : ScanStep}
    (h : least? eligible rank pending = some (place, r)) (hs : pending[place]? = some s) :
    eligible s = true := by
  induction pending generalizing place r with
  | nil => cases h
  | cons s' rest ih =>
    rw [least?] at h
    split at h
    case h_1 => cases h
    case h_2 hrest =>
      cases h
      exact ih hrest hs
    case h_3 hs' _ =>
      cases h
      cases hs
      exact hs'
    case h_4 hs' hrest =>
      split at h
      · cases h
        exact ih hrest hs
      · cases h
        cases hs
        exact hs'

/-- **Some scans have been put in order and the others are left**, with
`bound` for the slots of those in order. -/
structure Progress (patterns : List SlotPattern) (bound : List ℕ)
    (pending : List ScanStep) : Prop where
  /-- A pattern is left, or its slots are bound. -/
  left : ∀ p ∈ patterns, p ∈ pending.map ScanStep.pattern ∨ ∀ i ∈ p.slots, i ∈ bound
  /-- What is left is a pattern. -/
  pattern : ∀ s ∈ pending, s.pattern ∈ patterns
  /-- What is bound is a slot of a pattern. -/
  bound : ∀ i ∈ bound, ∃ p ∈ patterns, i ∈ p.slots

variable {patterns : List SlotPattern} {n : ℕ}

/-- One scan more is put in order. -/
theorem Progress.step {bound : Option (List ℕ)} (h : Progress patterns (bound.getD []) pending)
    {place : ℕ} {s : ScanStep} (hs : pending[place]? = some s) :
    Progress patterns (bind bound s) (pending.eraseIdx place) := by
  obtain ⟨hlt, rfl⟩ := List.getElem?_eq_some_iff.mp hs
  have hperm := (List.getElem_cons_eraseIdx_perm hlt).symm
  constructor
  · intro p hp
    rcases h.left p hp with hleft | hbound
    · rw [(hperm.map _).mem_iff, List.map_cons, List.mem_cons] at hleft
      rcases hleft with rfl | hleft
      · exact .inr fun i hi => List.mem_append_right _ hi
      · exact .inl hleft
    · exact .inr fun i hi => List.mem_append_left _ (hbound i hi)
  · exact fun s hs => h.pattern s (List.mem_of_mem_eraseIdx hs)
  · intro i hi
    rcases List.mem_append.mp hi with hi | hi
    · exact h.bound i hi
    · exact ⟨_, h.pattern _ (List.getElem_mem hlt), hi⟩

section OneGroup

variable (hone : groupCount patterns n ≤ 1) (hlt : ∀ p ∈ patterns, ∀ i ∈ p.slots, i < n)

include hone hlt

/-- **While a slot is bound and a scan with slots is left, a scan that is left
is tied.** -/
theorem Progress.exists_tied {bound : List ℕ} (h : Progress patterns bound pending)
    (hbound : bound ≠ []) {s : ScanStep} (hs : s ∈ pending) (hslots : s.pattern.slots ≠ []) :
    ∃ s' ∈ pending, s'.isTied bound = true := by
  obtain ⟨i, hi⟩ := List.exists_mem_of_ne_nil _ hbound
  obtain ⟨j, hj⟩ := List.exists_mem_of_ne_nil _ hslots
  by_cases hjb : j ∈ bound
  · exact ⟨s, hs, (ScanStep.isTied_iff hslots).mpr ⟨j, hj, hjb⟩⟩
  · obtain ⟨p, hp, hip⟩ := h.bound i hi
    obtain ⟨q, hq, ⟨a, ha, hab⟩, b, hb, hbb⟩ :=
      exists_crossing_of_groupCount_le_one hone (hlt p hp i hip)
        (hlt _ (h.pattern s hs) j hj) hi hjb
    -- a pattern with a slot that is not bound is left
    have hleft := (h.left q hq).resolve_right fun hall => hbb (hall b hb)
    obtain ⟨s', hs', rfl⟩ := List.mem_map.mp hleft
    exact ⟨s', hs', (ScanStep.isTied_iff (List.ne_nil_of_mem ha)).mpr ⟨a, ha, hab⟩⟩

/-- **The next scan shares a slot** with those before it, if they have bound
one and it has one. -/
theorem Progress.exists_shared {bound : Option (List ℕ)}
    (h : Progress patterns (bound.getD []) pending) (hbound : bound.getD [] ≠ []) {s : ScanStep}
    (hs : pending[(pick? bound pending).getD 0]? = some s) (hslots : s.pattern.slots ≠ []) :
    ∃ i ∈ s.pattern.slots, i ∈ bound.getD [] := by
  cases bound with
  | none => exact absurd rfl hbound
  | some slots =>
    obtain ⟨s', hs', htied⟩ :=
      h.exists_tied hone hlt hbound (List.mem_of_getElem? hs) hslots
    rw [← ScanStep.isTied_iff hslots]
    have hpick : pick? (some slots) pending
        = (least? (ScanStep.isTied slots) (ScanStep.joiningRank slots) pending).map (·.1) := rfl
    rw [hpick] at hs
    cases hleast : least? (ScanStep.isTied slots) (ScanStep.joiningRank slots) pending with
    | none =>
      have hloose : s'.isTied slots = false := least?_eq_none_iff.mp hleast s' hs'
      exact Bool.noConfusion (htied.symm.trans hloose)
    | some choice =>
      rw [hleast] at hs
      exact eligible_of_least? hleast hs

/-- **Each scan shares a slot with those before it**, if they have bound one
and it has one. -/
theorem Progress.exists_shared_of_arrange {bound : Option (List ℕ)}
    (h : Progress patterns (bound.getD []) pending) {front back : List ScanStep} {s : ScanStep}
    (hsplit : arrange bound pending = front ++ s :: back) (hslots : s.pattern.slots ≠ [])
    (hbound : bound.getD [] ++ front.flatMap (·.pattern.slots) ≠ []) :
    ∃ i ∈ s.pattern.slots, i ∈ bound.getD [] ++ front.flatMap (·.pattern.slots) := by
  fun_induction arrange bound pending generalizing front with
  | case1 bound pending place hplace => cases front <;> cases hsplit
  | case2 bound pending place first hplace ih =>
    cases front with
    | nil =>
      cases hsplit
      rw [List.flatMap_nil, List.append_nil] at hbound ⊢
      exact h.exists_shared hone hlt hbound hplace hslots
    | cons s' front =>
      obtain ⟨rfl, hrest⟩ := List.cons.inj hsplit
      rw [List.flatMap_cons, ← List.append_assoc] at hbound ⊢
      exact ih (h.step hplace) hrest hbound

end OneGroup

end JoinOrder

/-! ## Estimates -/

/-- What a store has answered to a request is its reply. -/
theorem Session.eq_reply_of_ask {α : Type} {r : Request} {reply : Store → α} {a : α}
    {s s' : Session} (h : Session.ask r reply s = .ok a s') : a = reply s'.store := by
  simp only [Session.ask, bind, EStateM.bind] at h
  cases hpass : r.pass s with
  | error e s₁ =>
    rw [hpass] at h
    cases h
  | ok _ s₁ =>
    rw [hpass] at h
    cases h
    rfl

/-- **Each pattern is scanned for with its own estimate**: the number of
triples that its fixed positions accept. -/
theorem scans_of_estimateScans {source : ℕ} {ps : List SlotPattern} {scans : List ScanStep}
    {s s' : Session} (h : estimateScans source ps s = .ok scans s') :
    scans = (ps.zipIdx source).map fun (p, i) =>
      ⟨p, i, s.store.memory.count s.store.access p.fixed⟩ := by
  induction ps generalizing source scans s with
  | nil =>
    cases h
    rfl
  | cons p ps ih =>
    simp only [estimateScans, bind, EStateM.bind] at h
    cases hcount : Session.count p.fixed s with
    | error e s₁ =>
      rw [hcount] at h
      cases h
    | ok estimate s₁ =>
      simp only [hcount] at h
      have hsame := (SessionM.KeepsStore.count p.fixed).of_ok hcount
      have hestimate := Session.eq_reply_of_ask hcount
      cases hrest : estimateScans (source + 1) ps s₁ with
      | error e s₂ =>
        rw [hrest] at h
        cases h
      | ok rest s₂ =>
        rw [hrest] at h
        cases h
        rw [ih hrest, hestimate, hsame.memory, hsame.access]
        rfl

/-! ## The order of a plan -/

/-- **Joining goes along shared slots.** Whenever a query is planned, on whatever
store and with whatever faults in wait, its scans are its patterns in some
order, each with its own place in the statement and its own estimate; and a
scan with slots that has one with slots before it shares a slot with those
before it. -/
theorem join_order_connected {text : String} {q : Query} {capacity : ℕ} {s s' : Session}
    {p : SelectPlan} (hcompile : Command.compile text = .ok (.select q))
    (hplan : q.plan capacity s = .ok p s') :
    p.steps.Perm (q.patterns.zipIdx.map fun (sp, i) =>
        ⟨sp, i, s.store.memory.count s.store.access sp.fixed⟩)
      ∧ (p.steps.map ScanStep.source).Perm (List.range q.patterns.length)
      ∧ ∀ front step back, p.steps = front ++ step :: back → step.pattern.slots ≠ [] →
        (∃ earlier ∈ front, earlier.pattern.slots ≠ []) →
        ∃ earlier ∈ front, ∃ i ∈ earlier.pattern.slots, i ∈ step.pattern.slots := by
  obtain ⟨statement, hparse⟩ := exists_parse_of_compile hcompile
  obtain ⟨q', heq, hq⟩ := exists_compile_of_parse hparse hcompile
  cases heq
  have hlt := (compiles_of_compile hq).binds.1
  obtain ⟨-, hone, scans, hscans, rfl⟩ := Query.exists_scans_of_plan hplan
  have hpatterns := map_pattern_of_estimateScans hscans
  have hperm := orderScans_perm scans
  have hstart : JoinOrder.Progress q.patterns (Option.getD none []) scans := by
    refine ⟨fun sp hsp => .inl (hpatterns ▸ hsp), fun s hs => ?_, nofun⟩
    exact hpatterns ▸ List.mem_map_of_mem hs
  refine ⟨scans_of_estimateScans hscans ▸ hperm, ?_, ?_⟩
  · have hsources : scans.map ScanStep.source = List.range q.patterns.length := by
      rw [scans_of_estimateScans hscans, List.map_map, List.range_eq_range',
        ← List.zipIdx_map_snd]
      rfl
    exact hsources ▸ hperm.map _
  · rintro front step back hsplit hslots ⟨earlier, hearlier, hopen⟩
    obtain ⟨i, hi⟩ := List.exists_mem_of_ne_nil _ hopen
    have hbound : i ∈ front.flatMap (·.pattern.slots) :=
      List.mem_flatMap.mpr ⟨earlier, hearlier, hi⟩
    obtain ⟨j, hj, hshared⟩ :=
      hstart.exists_shared_of_arrange hone hlt hsplit hslots (List.ne_nil_of_mem hbound)
    obtain ⟨other, hother, hjo⟩ := List.mem_flatMap.mp hshared
    exact ⟨other, hother, j, hjo, hj⟩

/-- A condition without unknowns has the least estimate and comes first. It binds
no slot, so the scan behind it is the first of those left, and the one behind
that shares a slot with it. -/
theorem join_order_connected_of_guard :
    let text := "SELECT ?x WHERE (?z, likes, ?y), (?x, knows, ?y), (a, knows, b)"
    let m : MemoryStore :=
      { name := "people"
        triples := (Indexes.insertAll ∅ [⟨⟨"a"⟩, ⟨"knows"⟩, ⟨"b"⟩⟩, ⟨⟨"c"⟩, ⟨"knows"⟩, ⟨"b"⟩⟩,
          ⟨⟨"d"⟩, ⟨"likes"⟩, ⟨"b"⟩⟩, ⟨⟨"e"⟩, ⟨"likes"⟩, ⟨"b"⟩⟩]).2 }
    ∃ q p s, Command.compile text = .ok (.select q)
      ∧ q.plan 1 (.begin { memory := m }) = .ok p s
      ∧ p.steps.map (fun step => (step.source, step.estimate)) = [(2, 1), (0, 2), (1, 2)]
      ∧ ∀ front step back, p.steps = front ++ step :: back → step.pattern.slots ≠ [] →
        (∃ earlier ∈ front, earlier.pattern.slots ≠ []) →
        ∃ earlier ∈ front, ∃ i ∈ earlier.pattern.slots, i ∈ step.pattern.slots := by
  intro text m
  have hrun : ((planned? text 1 m .indexed).bind fun r => r.1.select?).map
      (fun p => p.steps.map fun step => (step.source, step.estimate))
        = some [(2, 1), (0, 2), (1, 2)] := by
    decide +kernel
  obtain ⟨p, hp, hsteps⟩ := Option.map_eq_some_iff.mp hrun
  obtain ⟨q, s, hcompile, hplan⟩ := exists_query_of_planned? hp
  exact ⟨q, p, s, hcompile, hplan, hsteps, (join_order_connected hcompile hplan).2.2⟩

end TripleScript
