import TripleScript.Proofs.Store.Reading
import TripleScript.Select.Bind

/-!
# Rows and assignments

A row is a partial assignment of nodes to slots, and binding a pattern to a
triple is the smallest step that makes the pattern become that triple. What
this means is said from the side of the total assignments: those that fit the
row after the step are the ones that fitted it before and turn the pattern
into the triple (`SlotPattern.exists_bind_iff`). A slot that occurs twice,
inside one pattern or across patterns, has to agree with itself, because an
assignment has one node for it.

`SlotPattern.accepts_lookup` says why a scan can be asked for less than the
whole store: the lookup of a row accepts whatever the pattern can become
under an assignment that fits the row.
-/

namespace TripleScript

variable {row row' : Row} {ρ : List Node} {t : Triple}

/-- The assignment has the node of every slot that the row has bound. -/
def Row.Fits (row : Row) (ρ : List Node) : Prop :=
  ∀ i n, row.node? i = some n → ρ[i]? = some n

/-- The nodes of a row; a slot that is not bound has the default one. -/
def Row.nodes (row : Row) : List Node :=
  row.map (·.getD default)

namespace Row

theorem length_empty (slots : ℕ) : (Row.empty slots).length = slots :=
  List.length_replicate

@[simp] theorem node?_empty (slots i : ℕ) : (Row.empty slots).node? i = none := by
  simp only [node?, Row.empty, List.getElem?_replicate]
  split <;> rfl

theorem node?_set (row : Row) (i j : ℕ) (n : Node) :
    Row.node? (row.set i (some n)) j
      = if i = j ∧ j < row.length then some n else row.node? j := by
  simp only [node?, List.getElem?_set]
  by_cases hij : i = j
  · subst hij
    by_cases hi : i < row.length
    · simp [hi]
    · simp [hi]
  · simp [hij]

theorem fits_empty (slots : ℕ) (ρ : List Node) : (Row.empty slots).Fits ρ := by
  intro i n h
  simp at h

/-- **A row with all its slots bound fits one assignment.** -/
theorem fits_iff_eq_map (hlen : row.length = ρ.length)
    (htotal : ∀ i < row.length, (row.node? i).isSome) :
    row.Fits ρ ↔ row = ρ.map some := by
  constructor
  · intro h
    refine List.ext_getElem (by simpa using hlen) fun i hi hi' => ?_
    obtain ⟨n, hn⟩ := Option.isSome_iff_exists.mp (htotal i hi)
    have hρ := h i n hn
    rw [node?, List.getElem?_eq_getElem hi, Option.join_some] at hn
    rw [hn, List.getElem_map, List.getElem_of_getElem? hρ |>.2]
  · rintro rfl i n h
    simpa [node?, List.getElem?_map, Option.join_eq_some_iff] using h

/-- A row with all its slots bound is the row of its nodes. -/
theorem map_nodes (htotal : ∀ i < row.length, (row.node? i).isSome) :
    row.nodes.map some = row := by
  refine List.ext_getElem (by simp [nodes]) fun i hi hi' => ?_
  obtain ⟨n, hn⟩ := Option.isSome_iff_exists.mp (htotal i hi')
  rw [node?, List.getElem?_eq_getElem hi', Option.join_some] at hn
  simp [nodes, hn]

end Row

/-! ## What a pattern becomes -/

/-- The node of a position under an assignment. -/
def SlotTerm.under (ρ : List Node) : SlotTerm → Node
  | const n => n
  | slot i => ρ.getD i default

/-- **The triple that a pattern becomes under an assignment.** -/
def SlotPattern.under (ρ : List Node) (p : SlotPattern) : Triple :=
  ⟨p.subject.under ρ, p.predicate.under ρ, p.object.under ρ⟩

namespace SlotTerm

variable {term : SlotTerm} {n : Node}

theorem length_of_bind (h : term.bind n row = some row') : row'.length = row.length := by
  cases term with
  | const m =>
    simp only [bind, Option.ite_none_right_eq_some, Option.some.injEq] at h
    rw [h.2]
  | slot i =>
    cases hi : row.node? i with
    | none =>
      simp only [bind, hi, Option.some.injEq] at h
      rw [← h, List.length_set]
    | some m =>
      simp only [bind, hi, Option.ite_none_right_eq_some, Option.some.injEq] at h
      rw [h.2]

/-- **Binding a position leaves the assignments that have the node there.** -/
theorem exists_bind_iff (hlen : row.length = ρ.length)
    (hslot : ∀ i ∈ term.slot?, i < row.length) :
    (∃ r, term.bind n row = some r ∧ r.Fits ρ) ↔ row.Fits ρ ∧ term.under ρ = n := by
  cases term with
  | const m =>
    by_cases hm : m = n
    · simp [bind, under, hm]
    · simp [bind, under, hm]
  | slot i =>
    have hi : i < row.length := hslot i rfl
    have hunder : ρ[i]? = some ((slot i).under ρ) := by
      simp [under, List.getD_eq_getElem?_getD, List.getElem?_eq_getElem (hlen ▸ hi)]
    -- a bound slot must have the node already, and an open one gets it
    cases hnode : row.node? i with
    | some m =>
      have hm : row.Fits ρ → (slot i).under ρ = m := fun h =>
        Option.some.inj (hunder.symm.trans (h i m hnode))
      by_cases hmn : m = n
      · simp only [bind, hnode, hmn, if_true, Option.some.injEq, exists_eq_left']
        exact ⟨fun h => ⟨h, hmn ▸ hm h⟩, And.left⟩
      · simp only [bind, hnode, hmn, if_false, reduceCtorEq, false_and, exists_false,
          false_iff, not_and]
        exact fun h hn => hmn ((hm h).symm.trans hn)
    | none =>
      simp only [bind, hnode, Option.some.injEq, exists_eq_left']
      constructor
      · intro h
        refine ⟨fun j k hj => h j k ?_, ?_⟩
        · have hij : i ≠ j := fun hij => by rw [hij, hj] at hnode; cases hnode
          rw [Row.node?_set, if_neg fun hc => hij hc.1, hj]
        · have hn := h i n (by rw [Row.node?_set, if_pos ⟨rfl, hi⟩])
          exact Option.some.inj (hunder.symm.trans hn)
      · rintro ⟨h, hn⟩ j k hj
        rw [Row.node?_set] at hj
        split at hj
        case isTrue hc =>
          obtain ⟨rfl, -⟩ := hc
          rw [hunder, hn, hj]
        case isFalse => exact h j k hj

/-- Binding a position binds its slot and unbinds none. -/
theorem isSome_of_bind (h : term.bind n row = some row') {i : ℕ}
    (hi : (row.node? i).isSome ∨ i ∈ term.slot? ∧ i < row.length) :
    (row'.node? i).isSome := by
  cases term with
  | const m =>
    simp only [bind, Option.ite_none_right_eq_some, Option.some.injEq] at h
    obtain ⟨-, rfl⟩ := h
    exact hi.resolve_right fun hi => by cases hi.1
  | slot j =>
    cases hnode : row.node? j with
    | some m =>
      simp only [bind, hnode, Option.ite_none_right_eq_some, Option.some.injEq] at h
      obtain ⟨-, rfl⟩ := h
      refine hi.elim id ?_
      rintro ⟨hi, -⟩
      obtain rfl : j = i := Option.some.inj hi
      rw [hnode]
      rfl
    | none =>
      simp only [bind, hnode, Option.some.injEq] at h
      rw [← h, Row.node?_set]
      split
      case isTrue => rfl
      case isFalse hc =>
        refine hi.resolve_right ?_
        rintro ⟨hi, hlt⟩
        exact hc ⟨Option.some.inj hi, hlt⟩

/-- What a position wants of a store is what it becomes. -/
theorem fits_wanted (hfits : row.Fits ρ) :
    Lookup.fits (term.wanted row) (term.under ρ) = true := by
  cases term with
  | const m => simp [wanted, under, Lookup.fits]
  | slot i =>
    cases hnode : row.node? i with
    | none => simp [wanted, Lookup.fits, hnode]
    | some m =>
      have hm := hfits i m hnode
      simp [wanted, under, Lookup.fits, hnode, List.getD_eq_getElem?_getD, hm]

end SlotTerm

namespace SlotPattern

variable {p : SlotPattern}

theorem mem_slots {i : ℕ} :
    i ∈ p.slots ↔ i ∈ p.subject.slot? ∨ i ∈ p.predicate.slot? ∨ i ∈ p.object.slot? := by
  simp [slots, terms, eq_comm]

/-- Binding a pattern binds its positions one after the other. -/
theorem bind_eq_some_iff :
    p.bind t row = some row' ↔ ∃ r₁ r₂, p.subject.bind t.subject row = some r₁
      ∧ p.predicate.bind t.predicate r₁ = some r₂ ∧ p.object.bind t.object r₂ = some row' := by
  simp [bind, Option.bind_eq_some_iff]

theorem length_of_bind (h : p.bind t row = some row') : row'.length = row.length := by
  obtain ⟨r₁, r₂, h₁, h₂, h₃⟩ := bind_eq_some_iff.mp h
  rw [SlotTerm.length_of_bind h₃, SlotTerm.length_of_bind h₂, SlotTerm.length_of_bind h₁]

/-- **Binding a pattern leaves the assignments that make it the triple.** -/
theorem exists_bind_iff (hlen : row.length = ρ.length)
    (hslots : ∀ i ∈ p.slots, i < row.length) :
    (∃ r, p.bind t row = some r ∧ r.Fits ρ) ↔ row.Fits ρ ∧ p.under ρ = t := by
  have hs : ∀ i ∈ p.subject.slot?, i < row.length := fun i hi =>
    hslots i (mem_slots.mpr (.inl hi))
  have hp : ∀ i ∈ p.predicate.slot?, i < row.length := fun i hi =>
    hslots i (mem_slots.mpr (.inr (.inl hi)))
  have ho : ∀ i ∈ p.object.slot?, i < row.length := fun i hi =>
    hslots i (mem_slots.mpr (.inr (.inr hi)))
  -- the positions are undone from the last to the first
  calc (∃ r, p.bind t row = some r ∧ r.Fits ρ)
    _ ↔ ∃ r₁, p.subject.bind t.subject row = some r₁ ∧ ∃ r₂,
          p.predicate.bind t.predicate r₁ = some r₂
            ∧ ∃ r, p.object.bind t.object r₂ = some r ∧ r.Fits ρ := by
      simp only [bind_eq_some_iff]
      grind
    _ ↔ ∃ r₁, p.subject.bind t.subject row = some r₁ ∧ ∃ r₂,
          p.predicate.bind t.predicate r₁ = some r₂
            ∧ r₂.Fits ρ ∧ p.object.under ρ = t.object := by
      refine exists_congr fun r₁ => and_congr_right fun h₁ => exists_congr fun r₂ =>
        and_congr_right fun h₂ => ?_
      have h := (SlotTerm.length_of_bind h₂).trans (SlotTerm.length_of_bind h₁)
      exact SlotTerm.exists_bind_iff (h.trans hlen) (by rwa [h])
    _ ↔ ∃ r₁, p.subject.bind t.subject row = some r₁ ∧ r₁.Fits ρ
          ∧ p.predicate.under ρ = t.predicate ∧ p.object.under ρ = t.object := by
      refine exists_congr fun r₁ => and_congr_right fun h₁ => ?_
      have h := SlotTerm.length_of_bind h₁
      have hiff : (∃ r, p.predicate.bind t.predicate r₁ = some r ∧ r.Fits ρ) ↔ _ :=
        SlotTerm.exists_bind_iff (h.trans hlen) (by rwa [h])
      grind
    _ ↔ row.Fits ρ ∧ p.under ρ = t := by
      have hiff : (∃ r, p.subject.bind t.subject row = some r ∧ r.Fits ρ) ↔ _ :=
        SlotTerm.exists_bind_iff hlen hs
      obtain ⟨s, q, o⟩ := t
      simp only [under, Triple.mk.injEq]
      grind

/-- Binding a pattern binds its slots and unbinds none. -/
theorem isSome_of_bind (h : p.bind t row = some row') {i : ℕ}
    (hi : (row.node? i).isSome ∨ i ∈ p.slots ∧ i < row.length) :
    (row'.node? i).isSome := by
  obtain ⟨r₁, r₂, h₁, h₂, h₃⟩ := bind_eq_some_iff.mp h
  have hlen₁ := SlotTerm.length_of_bind h₁
  have hlen₂ := SlotTerm.length_of_bind h₂
  rw [mem_slots] at hi
  have hstep₁ := SlotTerm.isSome_of_bind h₁ (i := i)
  have hstep₂ := SlotTerm.isSome_of_bind h₂ (i := i)
  have hstep₃ := SlotTerm.isSome_of_bind h₃ (i := i)
  grind

/-- **The lookup of a row accepts what the pattern becomes** under an
assignment that fits the row. -/
theorem accepts_lookup (hfits : row.Fits ρ) :
    (p.lookup row).accepts (p.under ρ) = true := by
  simp only [Lookup.accepts, lookup, under, Bool.and_eq_true]
  exact ⟨⟨SlotTerm.fits_wanted hfits, SlotTerm.fits_wanted hfits⟩,
    SlotTerm.fits_wanted hfits⟩

end SlotPattern

end TripleScript
