import Mathlib.Data.List.GetD
import Mathlib.Tactic.ByContra
import TripleScript.Plan.Groups

/-!
# Slots of one group

That the groups of a query are counted right has two sides, and this is one of
them: where one group is counted, the patterns do hang together. Colour the
slots in any way that gives the slots of each pattern the same colour. The
forest then never lets a slot point to one of another colour, neither when a
path is shortened nor when two slots of a pattern are linked
(`Forest.Keeps`), so the root found above a slot has its colour. If all slots
have the same root, all have the same colour
(`colour_eq_of_groupCount_le_one`).

Nothing is needed here about whether a climb reaches a root: wherever it
stops, it stops at the right colour.
-/

namespace TripleScript

variable {α : Type} {colour : ℕ → α}

/-- **The slots of a pattern have one colour.** -/
def SlotPattern.OfOneColour (colour : ℕ → α) (p : SlotPattern) : Prop :=
  ∀ i ∈ p.slots, ∀ j ∈ p.slots, colour i = colour j

namespace Forest

/-- **No slot points to one of another colour.** -/
def Keeps (colour : ℕ → α) (f : Forest) : Prop := ∀ i, colour (f.parent i) = colour i

/-- A slot that is no slot of the forest, or that is its own root, has itself
as its parent. -/
theorem parent_singletons (n i : ℕ) : (singletons n).parent i = i := by
  unfold singletons parent
  by_cases hi : i < n
  · rw [List.getD_eq_getElem _ _ (by rwa [List.length_range]), List.getElem_range]
  · exact List.getD_eq_default _ _ (by rw [List.length_range]; omega)

/-- Pointing one slot elsewhere changes the parent of that slot only. -/
theorem parent_set (f : Forest) (i a j : ℕ) :
    parent (f.set i a) j = if j = i ∧ i < f.length then a else f.parent j := by
  unfold parent
  rw [List.getD_eq_getElem?_getD, List.getElem?_set, List.getD_eq_getElem?_getD]
  grind

variable {f : Forest} {i j : ℕ}

theorem keeps_singletons (colour : ℕ → α) (n : ℕ) : (singletons n).Keeps colour :=
  fun i => congrArg colour (parent_singletons n i)

/-- A slot may point to any other slot of its colour. -/
theorem Keeps.set (h : f.Keeps colour) (hij : colour i = colour j) :
    Keeps colour (f.set i j) := by
  intro k
  rw [parent_set]
  split
  case isTrue hk => rw [hk.1, hij]
  case isFalse => exact h k

/-- **Climbing stays within a colour**, and so does shortening the path. -/
theorem Keeps.findWithin (h : f.Keeps colour) (fuel i : ℕ) :
    colour (f.findWithin fuel i).1 = colour i ∧ Keeps colour (f.findWithin fuel i).2 := by
  induction fuel generalizing f i with
  | zero => exact ⟨rfl, h⟩
  | succ fuel ih =>
    have habove : colour (f.parent (f.parent i)) = colour i := (h _).trans (h i)
    unfold Forest.findWithin
    split
    case isTrue => exact ⟨rfl, h⟩
    case isFalse =>
      obtain ⟨hroot, hkeeps⟩ := ih (h.set habove.symm) (f.parent (f.parent i))
      exact ⟨hroot.trans habove, hkeeps⟩

/-- The root found above a slot has its colour. -/
theorem Keeps.find (h : f.Keeps colour) (i : ℕ) :
    colour (f.find i).1 = colour i ∧ Keeps colour (f.find i).2 :=
  h.findWithin f.length i

/-- **Slots of one colour can be linked.** -/
theorem Keeps.link (h : f.Keeps colour) (hij : colour i = colour j) :
    Keeps colour (f.link i j) := by
  obtain ⟨hi, h₁⟩ := h.find i
  obtain ⟨hj, h₂⟩ := h₁.find j
  unfold Forest.link
  dsimp only
  split
  case isTrue => exact h₂
  case isFalse => exact h₂.set (hi.trans (hij.trans hj.symm))

/-- So can all slots of a pattern. -/
theorem Keeps.linkAll (h : f.Keeps colour) {slots : List ℕ}
    (hslots : ∀ i ∈ slots, ∀ j ∈ slots, colour i = colour j) :
    Keeps colour (f.linkAll slots) := by
  have hpairs : ∀ pair ∈ slots.zip slots.tail, colour pair.1 = colour pair.2 := by
    intro pair hpair
    obtain ⟨hi, hj⟩ := List.of_mem_zip hpair
    exact hslots _ hi _ (List.mem_of_mem_tail hj)
  unfold Forest.linkAll
  generalize slots.zip slots.tail = pairs at hpairs ⊢
  induction pairs generalizing f with
  | nil => exact h
  | cons pair pairs ih =>
    rw [List.forall_mem_cons] at hpairs
    exact ih (h.link hpairs.1) hpairs.2

/-- Linking the slots of pattern after pattern stays within the colours. -/
theorem Keeps.linkPatterns (h : f.Keeps colour) {patterns : List SlotPattern}
    (hpatterns : ∀ p ∈ patterns, p.OfOneColour colour) :
    Keeps colour (patterns.foldl (fun f p => f.linkAll p.slots) f) := by
  induction patterns generalizing f with
  | nil => exact h
  | cons p patterns ih =>
    rw [List.forall_mem_cons] at hpatterns
    exact ih (h.linkAll hpatterns.1) hpatterns.2

/-- Among the roots of some slots there is one of the colour of each slot. -/
theorem Keeps.exists_mem_roots (h : f.Keeps colour) {slots : List ℕ} (hi : i ∈ slots) :
    ∃ r ∈ f.roots slots, colour r = colour i := by
  induction slots generalizing f with
  | nil => cases hi
  | cons j slots ih =>
    obtain ⟨hroot, hkeeps⟩ := h.find j
    unfold roots
    dsimp only
    rcases List.mem_cons.mp hi with rfl | hi
    · exact ⟨_, List.mem_cons_self, hroot⟩
    · obtain ⟨r, hr, hcolour⟩ := ih hkeeps hi
      exact ⟨r, List.mem_cons_of_mem _ hr, hcolour⟩

end Forest

/-- **Patterns of one group hang together**: colours that no pattern mixes are
one colour. -/
theorem colour_eq_of_groupCount_le_one {patterns : List SlotPattern} {n : ℕ}
    (hone : groupCount patterns n ≤ 1) (hpatterns : ∀ p ∈ patterns, p.OfOneColour colour)
    {i j : ℕ} (hi : i < n) (hj : j < n) : colour i = colour j := by
  have hkeeps := (Forest.keeps_singletons colour n).linkPatterns hpatterns
  obtain ⟨r, hr, hri⟩ := hkeeps.exists_mem_roots (List.mem_range.mpr hi)
  obtain ⟨r', hr', hrj⟩ := hkeeps.exists_mem_roots (List.mem_range.mpr hj)
  -- there is one root at most, so the two stand at the same place
  have hrr' : r = r' := by
    obtain ⟨a, ha, rfl⟩ := List.mem_iff_getElem.mp (List.mem_eraseDups.mpr hr)
    obtain ⟨b, hb, rfl⟩ := List.mem_iff_getElem.mp (List.mem_eraseDups.mpr hr')
    dsimp only [groupCount] at hone
    obtain rfl : a = b := by omega
    rfl
  rw [← hri, hrr', hrj]

/-- So a pattern leads out of some slots if there are others. -/
theorem exists_crossing_of_groupCount_le_one {patterns : List SlotPattern} {n : ℕ}
    (hone : groupCount patterns n ≤ 1) {inside : List ℕ} {i j : ℕ} (hi : i < n) (hj : j < n)
    (hin : i ∈ inside) (hout : j ∉ inside) :
    ∃ p ∈ patterns, (∃ a ∈ p.slots, a ∈ inside) ∧ ∃ b ∈ p.slots, b ∉ inside := by
  by_contra hnone
  push Not at hnone
  have hcolour : ∀ p ∈ patterns, p.OfOneColour (· ∈ inside) := by
    intro p hp a ha b hb
    exact propext ⟨fun h => hnone p hp ⟨a, ha, h⟩ b hb, fun h => hnone p hp ⟨b, hb, h⟩ a ha⟩
  have heq : (i ∈ inside) = (j ∈ inside) :=
    colour_eq_of_groupCount_le_one hone hcolour hi hj
  exact hout (heq ▸ hin)

end TripleScript
