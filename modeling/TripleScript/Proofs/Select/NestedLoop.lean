import TripleScript.Proofs.Select.Rows

/-!
# The nested loop finds every solution once

Joining scans is a nested loop: each scan goes through the triples of its
lookup, and each triple that agrees with the row leads to the scans that
follow. `completions` is that loop as a list, with no store to ask and nobody
to stop it.

Its rows are the solutions of the patterns, the assignments that turn every
pattern into a triple of the store, and each solution is found exactly once:
`count_completions` counts how often the loop arrives at an assignment. The
count needs no order of the scans. A scan has no triple twice, and of its
triples only the one that the pattern becomes lets the assignment pass; so
the assignment is lost nowhere and repeated nowhere.

`mem_solutions` and `nodup_solutions` say the same of the loop that begins
with nothing bound, and `solutions_perm` draws the consequence for the order
of the scans.
-/

namespace TripleScript

variable {m : MemoryStore} {steps : List ScanStep} {row : Row} {ρ : List Node}

/-- The rows that `next` makes of the row bound to each of some triples. -/
def through (p : SlotPattern) (row : Row) (next : Row → List Row) (ts : List Triple) :
    List Row :=
  ts.flatMap fun t => (p.bind t row).elim [] next

/-- **The rows in which some scans complete a row**, in the order of the
loops. -/
def completions (m : MemoryStore) : List ScanStep → Row → List Row
  | [], row => [row]
  | step :: steps, row =>
    through step.pattern row (completions m steps) (m.scan (step.pattern.lookup row))

/-- **Some scans bind the slots of a query**: each of them, and no others. -/
structure Covers (steps : List ScanStep) (slots : ℕ) : Prop where
  /-- What a scan binds is a slot. -/
  within : ∀ step ∈ steps, ∀ i ∈ step.pattern.slots, i < slots
  /-- A slot is bound by a scan. -/
  each : ∀ i < slots, ∃ step ∈ steps, i ∈ step.pattern.slots

/-- Which slots are bound does not depend on the order of the scans. -/
theorem Covers.perm {steps' : List ScanStep} {slots : ℕ} (h : Covers steps slots)
    (hperm : steps.Perm steps') : Covers steps' slots where
  within step hstep := h.within step (hperm.mem_iff.mpr hstep)
  each i hi := by
    obtain ⟨step, hstep, hslot⟩ := h.each i hi
    exact ⟨step, hperm.mem_iff.mp hstep, hslot⟩

theorem through_append (p : SlotPattern) (row : Row) (next : Row → List Row)
    (ts us : List Triple) :
    through p row next (ts ++ us) = through p row next ts ++ through p row next us :=
  List.flatMap_append

/-- What comes out of a loop comes from one of its triples. -/
theorem mem_through {p : SlotPattern} {next : Row → List Row} {ts : List Triple} {r : Row} :
    r ∈ through p row next ts
      ↔ ∃ t ∈ ts, ∃ extended, p.bind t row = some extended ∧ r ∈ next extended := by
  unfold through
  refine List.mem_flatMap.trans (exists_congr fun t => and_congr_right fun _ => ?_)
  cases p.bind t row with
  | none => simp
  | some extended => simp

/-- Completing a row keeps its slots. -/
theorem length_of_mem_completions {r : Row} (h : r ∈ completions m steps row) :
    r.length = row.length := by
  induction steps generalizing row with
  | nil => rw [List.mem_singleton.mp h]
  | cons step steps ih =>
    obtain ⟨t, -, extended, hbind, hr⟩ := mem_through.mp h
    rw [ih hr, SlotPattern.length_of_bind hbind]

/-- Completing a row binds the slots of the scans and unbinds none. -/
theorem isSome_of_mem_completions {r : Row} (h : r ∈ completions m steps row) {i : ℕ}
    (hi : (row.node? i).isSome
      ∨ i < row.length ∧ ∃ step ∈ steps, i ∈ step.pattern.slots) :
    (r.node? i).isSome := by
  induction steps generalizing row with
  | nil =>
    rw [List.mem_singleton.mp h]
    simpa using hi
  | cons step steps ih =>
    obtain ⟨t, -, extended, hbind, hr⟩ := mem_through.mp h
    refine ih hr ?_
    rw [SlotPattern.length_of_bind hbind]
    rcases hi with hi | ⟨hlt, step', hstep', hslot⟩
    · exact .inl (SlotPattern.isSome_of_bind hbind (.inl hi))
    · rcases List.mem_cons.mp hstep' with rfl | hstep'
      · exact .inl (SlotPattern.isSome_of_bind hbind (.inr ⟨hslot, hlt⟩))
      · exact .inr ⟨hlt, step', hstep', hslot⟩

/-! ## Each solution is found once -/

open Classical in
/-- **The nested loop arrives at an assignment once** if the assignment fits
the row it begins with and turns every pattern into a triple of the store,
and it never arrives at any other. -/
theorem count_completions (hlen : row.length = ρ.length)
    (hwithin : ∀ step ∈ steps, ∀ i ∈ step.pattern.slots, i < row.length)
    (heach : ∀ i < row.length,
      (row.node? i).isSome ∨ ∃ step ∈ steps, i ∈ step.pattern.slots) :
    (completions m steps row).count (ρ.map some)
      = if row.Fits ρ ∧ ∀ step ∈ steps, step.pattern.under ρ ∈ m.triples then 1 else 0 := by
  induction steps generalizing row with
  | nil =>
    have htotal : ∀ i < row.length, (row.node? i).isSome := by simpa using heach
    show [row].count (ρ.map some) = _
    rw [List.count_singleton]
    simp only [beq_iff_eq, Row.fits_iff_eq_map hlen htotal, List.not_mem_nil,
      false_implies, implies_true, and_true]
  | cons step steps ih =>
    let p := step.pattern
    let rest : Prop := ∀ step ∈ steps, step.pattern.under ρ ∈ m.triples
    have hp : ∀ i ∈ p.slots, i < row.length := hwithin step List.mem_cons_self
    -- of the triples of the scan, only the one that the pattern becomes counts
    have hone : ∀ t ∈ m.scan (p.lookup row),
        ((p.bind t row).elim [] (completions m steps)).count (ρ.map some)
          = if p.under ρ = t ∧ row.Fits ρ ∧ rest then 1 else 0 := by
      intro t _
      have hiff := SlotPattern.exists_bind_iff (t := t) hlen hp
      cases hbind : p.bind t row with
      | none =>
        simp only [hbind, reduceCtorEq, false_and, exists_false, false_iff] at hiff
        rw [if_neg fun h => hiff ⟨h.2.1, h.1⟩]
        rfl
      | some extended =>
        simp only [hbind, Option.some.injEq, exists_eq_left'] at hiff
        have hlength := SlotPattern.length_of_bind hbind
        show (completions m steps extended).count (ρ.map some) = _
        rw [ih (hlength.trans hlen)]
        · simp only [hiff, rest]
          exact if_congr (by tauto) rfl rfl
        · rw [hlength]
          exact fun s hs => hwithin s (List.mem_cons_of_mem _ hs)
        · rw [hlength]
          intro i hi
          rcases heach i hi with h | ⟨s, hs, hslot⟩
          · exact .inl (SlotPattern.isSome_of_bind hbind (.inl h))
          · rcases List.mem_cons.mp hs with rfl | hs
            · exact .inl (SlotPattern.isSome_of_bind hbind (.inr ⟨hslot, hi⟩))
            · exact .inr ⟨s, hs, hslot⟩
    show (through p row (completions m steps) (m.scan (p.lookup row))).count _ = _
    rw [through, count_flatMap_of_nodup (m.nodup_scan _) hone]
    -- and the scan has that triple if the store has it, since the lookup accepts it
    refine if_congr ?_ rfl rfl
    rw [MemoryStore.mem_scan, List.forall_mem_cons]
    constructor
    · rintro ⟨⟨hmem, -⟩, hfits, hrest⟩
      exact ⟨hfits, hmem, hrest⟩
    · rintro ⟨hfits, hmem, hrest⟩
      exact ⟨⟨hmem, SlotPattern.accepts_lookup hfits⟩, hfits, hrest⟩

/-! ## Solutions -/

/-- The assignments that the nested loop finds, in the order of the loops. -/
def solutions (m : MemoryStore) (steps : List ScanStep) (slots : ℕ) : List (List Node) :=
  (completions m steps (Row.empty slots)).map Row.nodes

variable {slots : ℕ}

/-- A completed row has all its slots bound. -/
theorem Covers.isSome_node? (h : Covers steps slots) {r : Row}
    (hr : r ∈ completions m steps (Row.empty slots)) :
    ∀ i < r.length, (r.node? i).isSome := by
  intro i hi
  rw [length_of_mem_completions hr] at hi
  exact isSome_of_mem_completions hr (.inr ⟨hi, h.each i (Row.length_empty slots ▸ hi)⟩)

/-- The completed rows are the solutions, with nothing left open. -/
theorem Covers.completions_eq (h : Covers steps slots) (m : MemoryStore) :
    completions m steps (Row.empty slots)
      = (solutions m steps slots).map (List.map some) := by
  rw [solutions, List.map_map]
  refine (List.map_id _).symm.trans (List.map_congr_left fun r hr => ?_)
  exact (Row.map_nodes (h.isSome_node? hr)).symm

open Classical in
/-- How often the nested loop finds an assignment. -/
theorem Covers.count_solutions (h : Covers steps slots) (m : MemoryStore) (ρ : List Node) :
    (solutions m steps slots).count ρ
      = if ρ.length = slots ∧ ∀ step ∈ steps, step.pattern.under ρ ∈ m.triples then 1
        else 0 := by
  have hlen := Row.length_empty slots
  by_cases hρ : ρ.length = slots
  · rw [← List.count_map_of_injective _ (List.map some)
        (List.map_injective_iff.mpr (Option.some_injective _)), ← h.completions_eq m,
      count_completions (hlen.trans hρ.symm) (by rw [hlen]; exact h.within)
        fun i hi => .inr (h.each i (hlen ▸ hi))]
    simp only [Row.fits_empty, hρ, true_and]
  · rw [if_neg fun hc => hρ hc.1, List.count_eq_zero, solutions, List.mem_map]
    rintro ⟨r, hr, rfl⟩
    exact hρ (by rw [Row.nodes, List.length_map, length_of_mem_completions hr, hlen])

/-- **The nested loop finds the solutions of the patterns**: the assignments
that turn every pattern into a triple of the store. -/
theorem Covers.mem_solutions (h : Covers steps slots) {m : MemoryStore} {ρ : List Node} :
    ρ ∈ solutions m steps slots
      ↔ ρ.length = slots ∧ ∀ step ∈ steps, step.pattern.under ρ ∈ m.triples := by
  classical
  rw [← List.count_pos_iff, h.count_solutions]
  split
  case isTrue hc => simpa using hc
  case isFalse hc => simpa using hc

/-- **The nested loop finds no solution twice.** -/
theorem Covers.nodup_solutions (h : Covers steps slots) (m : MemoryStore) :
    (solutions m steps slots).Nodup := by
  classical
  refine List.nodup_iff_count_le_one.mpr fun ρ => ?_
  rw [h.count_solutions]
  split
  · exact le_rfl
  · exact Nat.zero_le 1

/-- **The order of the scans decides only the order of the solutions.** -/
theorem Covers.solutions_perm (h : Covers steps slots) {steps' : List ScanStep}
    (hperm : steps.Perm steps') (m : MemoryStore) :
    (solutions m steps slots).Perm (solutions m steps' slots) := by
  have h' := h.perm hperm
  refine (List.perm_ext_iff_of_nodup (h.nodup_solutions m) (h'.nodup_solutions m)).mpr
    fun ρ => ?_
  rw [h.mem_solutions, h'.mem_solutions]
  simp only [hperm.mem_iff]

end TripleScript
