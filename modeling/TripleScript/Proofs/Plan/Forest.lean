import Mathlib.Data.Finset.Card
import Mathlib.Logic.Relation
import TripleScript.Proofs.Plan.Bounds
import TripleScript.Proofs.Plan.Groups

/-!
# Climbing to the root

A slot points to another slot of its group, that one to the next, and so on
up to the root. Nothing in a forest says how long this can go on: the climb has
no bound of its own, and it changes the forest on its way. What it rests on is
that the slots have heights that fall along every step (`Forest.Rooted`).
Shortening a path keeps the heights as they are. Pointing one root to another
lifts a whole tree over the other root. So after any number of climbs and links
a climb reaches a root, and as many steps as there are slots are enough for it
(`Forest.Grown.climbs_find`).

With the root reached, linking is exact. The colours that a forest keeps after
two slots are linked are those that it kept before and that agree on the two
slots (`Forest.Rooted.keeps_link_iff`). So the forest of some patterns keeps the
colours that no pattern mixes and no others (`Forest.keeps_ofPatterns_iff`).
-/

namespace TripleScript

namespace Forest

variable {α : Type} {colour : ℕ → α} {n i j r : ℕ} {f g : Forest}

/-! ## Climbs -/

/-- **Climbing without a bound**: as long as a slot is not its own parent it is
pointed to the parent of its parent, and the climb goes on from there. It ends at
a root, with the forest that it has made. -/
inductive Climbs : Forest → ℕ → ℕ → Forest → Prop
  /-- A root is found. -/
  | root {f : Forest} {i : ℕ} (h : f.parent i = i) : Climbs f i i f
  /-- The climb goes on. -/
  | up {f g : Forest} {i r : ℕ} (h : f.parent i ≠ i)
      (rest : Climbs (f.set i (f.parent (f.parent i))) (f.parent (f.parent i)) r g) :
      Climbs f i r g

/-- Heights fall along every step to a parent. -/
def Falls (height : ℕ → ℕ) (f : Forest) : Prop :=
  ∀ i, f.parent i ≠ i → height (f.parent i) < height i

/-- **A forest is rooted** if no slot points out of it and its slots have heights
that fall along every step. -/
structure Rooted (n : ℕ) (f : Forest) : Prop where
  /-- No slot points out of the forest. -/
  inRange : f.InRange n
  /-- No path goes round in a circle. -/
  heights : ∃ height, f.Falls height

/-- Only a slot of the forest has another one as its parent. -/
theorem lt_length_of_parent_ne (h : f.parent i ≠ i) : i < f.length := by
  by_contra hi
  exact h (List.getD_eq_default _ _ (not_lt.mp hi))

/-- What a path is shortened to. -/
theorem parent_shortened (h : f.parent i ≠ i) (j : ℕ) :
    parent (f.set i (f.parent (f.parent i))) j
      = if j = i then f.parent (f.parent i) else f.parent j := by
  rw [parent_set]
  exact if_congr (and_iff_left (lt_length_of_parent_ne h)) rfl rfl

section Heights

variable {height : ℕ → ℕ} (hheight : f.Falls height)

include hheight

/-- The parent of the parent is lower than a slot that is no root. -/
theorem height_above_lt (h : f.parent i ≠ i) : height (f.parent (f.parent i)) < height i := by
  by_cases habove : f.parent (f.parent i) = f.parent i
  · rw [habove]
    exact hheight i h
  · exact (hheight _ habove).trans (hheight i h)

/-- **Shortening a path keeps the heights.** -/
theorem falls_shortened (h : f.parent i ≠ i) :
    Falls height (f.set i (f.parent (f.parent i))) := by
  intro j
  rw [parent_shortened h]
  split
  case isTrue hj =>
    rw [hj]
    exact fun _ => height_above_lt hheight h
  case isFalse => exact hheight j

/-- A path that is shortened has the roots it had. -/
theorem isRoot_shortened_iff (h : f.parent i ≠ i) (j : ℕ) :
    parent (f.set i (f.parent (f.parent i))) j = j ↔ f.parent j = j := by
  rw [parent_shortened h]
  split
  case isTrue hj =>
    subst hj
    exact iff_of_false (fun heq => (height_above_lt hheight h).ne (congrArg height heq)) h
  case isFalse => rfl

/-- **A climb reaches a root** in as many steps as there are lower slots. -/
theorem climbs_findWithin (hrange : f.InRange n) (hi : i < n) {fuel : ℕ}
    (hfuel : ((Finset.range n).filter (height · < height i)).card ≤ fuel) :
    Climbs f i (f.findWithin fuel i).1 (f.findWithin fuel i).2 := by
  induction fuel generalizing f i with
  | zero =>
    refine .root ?_
    by_contra h
    have hmem : f.parent i ∈ (Finset.range n).filter (height · < height i) :=
      Finset.mem_filter.mpr ⟨Finset.mem_range.mpr (hrange.getElem? hi).2, hheight i h⟩
    have hcard := Finset.card_pos.mpr ⟨_, hmem⟩
    omega
  | succ fuel ih =>
    rw [findWithin]
    split
    case isTrue h => exact .root h
    case isFalse h =>
      obtain ⟨-, hparent⟩ := hrange.getElem? hi
      obtain ⟨-, habove⟩ := hrange.getElem? hparent
      refine .up h (ih (falls_shortened hheight h) (hrange.set i habove) habove ?_)
      -- the slot the climb goes on from is no longer among the lower ones
      have hlower := height_above_lt hheight h
      have hsub : (Finset.range n).filter (height · < height (f.parent (f.parent i)))
          ⊂ (Finset.range n).filter (height · < height i) := by
        rw [Finset.ssubset_iff_of_subset fun k hk => ?_]
        · refine ⟨f.parent (f.parent i), ?_, fun hmem => lt_irrefl _ (Finset.mem_filter.mp hmem).2⟩
          exact Finset.mem_filter.mpr ⟨Finset.mem_range.mpr habove, hlower⟩
        · obtain ⟨hkn, hk⟩ := Finset.mem_filter.mp hk
          exact Finset.mem_filter.mpr ⟨hkn, hk.trans hlower⟩
      have hcard := Finset.card_lt_card hsub
      omega

end Heights

/-- **A climb in a rooted forest comes to its end**, with what `find` gives. -/
theorem Rooted.climbs_find (h : f.Rooted n) (hi : i < n) :
    Climbs f i (f.find i).1 (f.find i).2 := by
  obtain ⟨height, hheight⟩ := h.heights
  refine climbs_findWithin hheight h.inRange hi ?_
  rw [h.inRange.length]
  have hcard := Finset.card_filter_le (Finset.range n) (height · < height i)
  rwa [Finset.card_range] at hcard

/-! ## What a climb keeps -/

namespace Climbs

/-- A climb ends at a root. -/
theorem isRoot (h : Climbs f i r g) : g.parent r = r := by
  induction h with
  | root h => exact h
  | up _ _ ih => exact ih

/-- **A climb in a rooted forest leaves it rooted**, with the roots it had. -/
theorem rooted (h : Climbs f i r g) (hf : f.Rooted n) (hi : i < n) :
    g.Rooted n ∧ ∀ j, g.parent j = j ↔ f.parent j = j := by
  induction h with
  | root => exact ⟨hf, fun _ => .rfl⟩
  | @up f g i r h _ ih =>
    obtain ⟨height, hheight⟩ := hf.heights
    obtain ⟨-, hparent⟩ := hf.inRange.getElem? hi
    obtain ⟨-, habove⟩ := hf.inRange.getElem? hparent
    obtain ⟨hg, hroots⟩ := ih ⟨hf.inRange.set i habove, height,
      falls_shortened hheight h⟩ habove
    exact ⟨hg, fun j => (hroots j).trans (isRoot_shortened_iff hheight h j)⟩

/-- **A climb keeps the colours that were kept, and no others.** -/
theorem keeps_iff (h : Climbs f i r g) : Keeps colour g ↔ Keeps colour f := by
  induction h with
  | root => rfl
  | @up f g i r h _ ih =>
    rw [ih]
    constructor
    · intro hkeeps j
      by_cases hj : j = i
      · have hi := hkeeps i
        have hparent := hkeeps (f.parent i)
        rw [parent_shortened h, if_pos rfl] at hi
        rw [parent_shortened h, if_neg h] at hparent
        rw [hj, ← hparent, hi]
      · have hkeep := hkeeps j
        rwa [parent_shortened h, if_neg hj] at hkeep
    · intro hkeeps
      exact hkeeps.set ((hkeeps _).trans (hkeeps i)).symm

/-- A climb follows the parents. -/
theorem reflTransGen (h : Climbs f i r g) :
    Relation.ReflTransGen (fun a b => f.parent a = b) i r := by
  induction h with
  | root => exact .refl
  | @up f g i r h _ ih =>
    have habove : Relation.ReflTransGen (fun a b => f.parent a = b) i (f.parent (f.parent i)) :=
      .tail (.single rfl) rfl
    refine habove.trans (ih.lift' id fun a b hab => ?_)
    rw [parent_shortened h] at hab
    split at hab
    case isTrue ha => rwa [ha, ← hab]
    case isFalse => exact .single hab

end Climbs

/-! ## The root of a slot -/

/-- The root above a slot. -/
def rootOf (f : Forest) (i : ℕ) : ℕ := (f.find i).1

/-- From a root, the parents lead nowhere else. -/
theorem eq_of_reflTransGen_of_isRoot {a b : ℕ} (ha : f.parent a = a)
    (h : Relation.ReflTransGen (fun a b => f.parent a = b) a b) : b = a := by
  induction h with
  | refl => rfl
  | tail _ hstep ih => rw [← hstep, ih, ha]

/-- **There is one root above a slot.** -/
theorem eq_of_isRoot {a b : ℕ} (ha : f.parent a = a) (hb : f.parent b = b)
    (hia : Relation.ReflTransGen (fun a b => f.parent a = b) i a)
    (hib : Relation.ReflTransGen (fun a b => f.parent a = b) i b) : a = b := by
  have hunique : Relator.RightUnique fun a b => f.parent a = b := fun _ _ _ h h' => h.symm.trans h'
  rcases Relation.ReflTransGen.total_of_right_unique hunique hia hib with hab | hba
  · exact (eq_of_reflTransGen_of_isRoot ha hab).symm
  · exact eq_of_reflTransGen_of_isRoot hb hba

namespace Rooted

variable (h : f.Rooted n)

include h

/-- The root above a slot is a root. -/
theorem isRoot_rootOf (hi : i < n) : f.parent (f.rootOf i) = f.rootOf i := by
  have hclimb := h.climbs_find hi
  exact ((hclimb.rooted h hi).2 _).mp hclimb.isRoot

/-- A root is the root above itself. -/
theorem rootOf_of_isRoot (hi : i < n) (hroot : f.parent i = i) : f.rootOf i = i :=
  eq_of_reflTransGen_of_isRoot hroot (h.climbs_find hi).reflTransGen

theorem rootOf_lt (hi : i < n) : f.rootOf i < n :=
  (h.inRange.find_eq hi).2.1

/-- **A forest keeps its roots as colours.** -/
theorem keeps_rootOf : Keeps f.rootOf f := by
  intro i
  by_cases hi : f.parent i = i
  · rw [hi]
  · have hlt : i < n := h.inRange.length ▸ lt_length_of_parent_ne hi
    obtain ⟨-, hparent⟩ := h.inRange.getElem? hlt
    refine eq_of_isRoot (i := i) (h.isRoot_rootOf hparent) (h.isRoot_rootOf hlt) ?_ ?_
    · exact .head rfl (h.climbs_find hparent).reflTransGen
    · exact (h.climbs_find hlt).reflTransGen

/-- **Another climb does not change the root above a slot.** -/
theorem rootOf_find (hi : i < n) (hj : j < n) : (f.find i).2.rootOf j = f.rootOf j := by
  have hclimb := h.climbs_find hi
  obtain ⟨hg, hroots⟩ := hclimb.rooted h hi
  have hroot := (hroots _).mp (hg.isRoot_rootOf hj)
  -- the roots of `f` are colours that the new forest keeps
  have hcolour : f.rootOf ((f.find i).2.rootOf j) = f.rootOf j :=
    ((hclimb.keeps_iff.mpr h.keeps_rootOf).find j).1
  rwa [h.rootOf_of_isRoot (hg.rootOf_lt hj) hroot] at hcolour

theorem find (hi : i < n) : Rooted n (f.find i).2 :=
  ((h.climbs_find hi).rooted h hi).1

/-! ## Links -/

/-- **Pointing one root to another lifts its tree over the other root.** -/
theorem set_root {a b : ℕ} (ha : a < n) (hb : b < n) (hroota : f.parent a = a)
    (hrootb : f.parent b = b) (hne : a ≠ b) : Rooted n (f.set a b) := by
  obtain ⟨height, hheight⟩ := h.heights
  have hkeeps := h.keeps_rootOf
  refine ⟨h.inRange.set a hb,
    fun i => if f.rootOf i = a then height i + height b + 1 else height i, fun i => ?_⟩
  dsimp only
  have hout : f.rootOf b ≠ a := by
    rw [h.rootOf_of_isRoot hb hrootb]
    exact hne.symm
  by_cases hi : i = a ∧ a < f.length
  · intro _
    rw [parent_set, if_pos hi, if_neg hout, hi.1, if_pos (h.rootOf_of_isRoot ha hroota)]
    omega
  · rw [parent_set, if_neg hi]
    intro hstep
    have hlower := hheight i hstep
    -- a slot and its parent are in the same tree
    rw [hkeeps i]
    split <;> omega

/-- Linking two slots leaves a forest rooted. -/
theorem link (hi : i < n) (hj : j < n) : Rooted n (f.link i j) := by
  have h₁ := h.find hi
  have h₂ := h₁.find hj
  have hroot := fun k => ((h₁.climbs_find hj).rooted h₁ hj).2 k
  unfold Forest.link
  dsimp only
  split
  case isTrue => exact h₂
  case isFalse hne =>
    exact h₂.set_root (h.rootOf_lt hi) (h₁.rootOf_lt hj)
      ((hroot _).mpr (h.climbs_find hi).isRoot) (h₁.climbs_find hj).isRoot hne

/-- **Linking two slots is exact**: the colours that are kept then are those that
were kept and that agree on the two slots. -/
theorem keeps_link_iff (hi : i < n) (hj : j < n) :
    Keeps colour (f.link i j) ↔ Keeps colour f ∧ colour i = colour j := by
  refine ⟨fun hkeeps => ?_, fun ⟨hkeeps, hij⟩ => hkeeps.link hij⟩
  have h₁ := h.find hi
  have hclimb₁ := h.climbs_find hi
  have hclimb₂ := h₁.climbs_find hj
  have hback : Keeps colour ((f.find i).2.find j).2 → Keeps colour f := fun hkeeps =>
    hclimb₁.keeps_iff.mp (hclimb₂.keeps_iff.mp hkeeps)
  have hcolours : Keeps colour ((f.find i).2.find j).2 →
      colour (f.find i).1 = colour i ∧ colour ((f.find i).2.find j).1 = colour j := fun hkeeps =>
    ⟨((hback hkeeps).find i).1, ((hclimb₂.keeps_iff.mp hkeeps).find j).1⟩
  unfold Forest.link at hkeeps
  dsimp only at hkeeps
  split at hkeeps
  case isTrue heq =>
    obtain ⟨hci, hcj⟩ := hcolours hkeeps
    exact ⟨hback hkeeps, hci.symm.trans ((congrArg colour heq).trans hcj)⟩
  case isFalse hne =>
    have hroot : ((f.find i).2.find j).2.parent (f.find i).1 = (f.find i).1 :=
      ((hclimb₂.rooted h₁ hj).2 _).mpr hclimb₁.isRoot
    have hlt : (f.find i).1 < ((f.find i).2.find j).2.length :=
      (h₁.find hj).inRange.length ▸ h.rootOf_lt hi
    -- nothing but the root has been pointed elsewhere, and a root has its own colour
    have hbefore : Keeps colour ((f.find i).2.find j).2 := by
      intro k
      by_cases hk : k = (f.find i).1
      · rw [hk, hroot]
      · have hkeep := hkeeps k
        rwa [parent_set, if_neg fun hc => hk hc.1] at hkeep
    obtain ⟨hci, hcj⟩ := hcolours hbefore
    have hlinked := hkeeps (f.find i).1
    rw [parent_set, if_pos ⟨rfl, hlt⟩] at hlinked
    exact ⟨hback hbefore, hci.symm.trans (hlinked.symm.trans hcj)⟩

end Rooted

/-! ## Forests that come about -/

/-- **What becomes of the single slots** by any number of climbs and links. -/
inductive Grown (n : ℕ) : Forest → Prop
  /-- At first each slot is a group of its own. -/
  | singletons : Grown n (singletons n)
  /-- The forest behind a climb. -/
  | find {f : Forest} {i : ℕ} (h : Grown n f) (hi : i < n) : Grown n (f.find i).2
  /-- The forest behind a link. -/
  | link {f : Forest} {i j : ℕ} (h : Grown n f) (hi : i < n) (hj : j < n) :
      Grown n (f.link i j)

/-- Single slots have nowhere to climb. -/
theorem rooted_singletons (n : ℕ) : Rooted n (singletons n) :=
  ⟨.singletons n, id, fun i hi => absurd (parent_singletons n i) hi⟩

namespace Grown

/-- **Every forest that comes about is rooted.** -/
theorem rooted (h : f.Grown n) : f.Rooted n := by
  induction h with
  | singletons => exact rooted_singletons n
  | find _ hi ih => exact ih.find hi
  | link _ hi hj ih => exact ih.link hi hj

/-- **Every climb comes to its end**, whatever climbs and links came before. -/
theorem climbs_find (h : f.Grown n) (hi : i < n) : Climbs f i (f.find i).1 (f.find i).2 :=
  h.rooted.climbs_find hi

section Neighbours

variable {slots : List ℕ} (hslots : ∀ i ∈ slots, i < n)

include hslots

theorem lt_of_mem_neighbours : ∀ pair ∈ slots.zip slots.tail, pair.1 < n ∧ pair.2 < n := by
  intro pair hpair
  obtain ⟨hi, hj⟩ := List.of_mem_zip hpair
  exact ⟨hslots _ hi, hslots _ (List.mem_of_mem_tail hj)⟩

/-- Slots are linked to their neighbours one link at a time. -/
theorem linkAll (h : f.Grown n) : Grown n (f.linkAll slots) := by
  have hpairs := lt_of_mem_neighbours hslots
  unfold Forest.linkAll
  generalize slots.zip slots.tail = pairs at hpairs ⊢
  induction pairs generalizing f with
  | nil => exact h
  | cons pair pairs ih =>
    obtain ⟨⟨hi, hj⟩, hpairs⟩ := List.forall_mem_cons.mp hpairs
    exact ih (h.link hi hj) hpairs

/-- **Linking slots to their neighbours is exact.** -/
theorem keeps_linkAll_iff (h : f.Grown n) :
    Keeps colour (f.linkAll slots)
      ↔ Keeps colour f ∧ ∀ pair ∈ slots.zip slots.tail, colour pair.1 = colour pair.2 := by
  have hpairs := lt_of_mem_neighbours hslots
  unfold Forest.linkAll
  generalize slots.zip slots.tail = pairs at hpairs ⊢
  induction pairs generalizing f with
  | nil => exact (and_iff_left (List.forall_mem_nil _)).symm
  | cons pair pairs ih =>
    obtain ⟨⟨hi, hj⟩, hpairs⟩ := List.forall_mem_cons.mp hpairs
    refine (ih (h.link hi hj) hpairs).trans ?_
    rw [h.rooted.keeps_link_iff hi hj, List.forall_mem_cons, and_assoc]

end Neighbours

end Grown

/-- Slots have one colour if each has that of its neighbour. -/
theorem forall_neighbours_iff {slots : List ℕ} :
    (∀ pair ∈ slots.zip slots.tail, colour pair.1 = colour pair.2)
      ↔ ∀ i ∈ slots, ∀ j ∈ slots, colour i = colour j := by
  constructor
  · intro hpairs
    -- each slot has the colour of the first
    have hfirst : ∀ i ∈ slots, ∀ first ∈ slots.head?, colour i = colour first := by
      induction slots with
      | nil => exact List.forall_mem_nil _
      | cons a slots ih =>
        refine List.forall_mem_cons.mpr
          ⟨fun _ hfirst => congrArg colour (Option.some.inj hfirst), ?_⟩
        cases slots with
        | nil => exact List.forall_mem_nil _
        | cons b slots =>
          obtain ⟨hab, hrest⟩ := List.forall_mem_cons.mp hpairs
          rintro i hi first ⟨⟩
          exact (ih hrest i hi b rfl).trans hab.symm
    intro i hi j hj
    obtain ⟨a, slots, rfl⟩ := List.exists_cons_of_ne_nil (List.ne_nil_of_mem hi)
    exact (hfirst i hi a rfl).trans (hfirst j hj a rfl).symm
  · intro hslots pair hpair
    obtain ⟨hi, hj⟩ := List.of_mem_zip hpair
    exact hslots _ hi _ (List.mem_of_mem_tail hj)

/-- The forest in which the slots of each pattern are in one group. -/
def ofPatterns (n : ℕ) (patterns : List SlotPattern) : Forest :=
  patterns.foldl (fun f p => f.linkAll p.slots) (singletons n)

section Patterns

variable {patterns : List SlotPattern} (hlt : ∀ p ∈ patterns, ∀ i ∈ p.slots, i < n)

include hlt

/-- **The forest of some patterns comes about by links.** -/
theorem grown_ofPatterns : Grown n (ofPatterns n patterns) := by
  suffices hfold : ∀ f : Forest, f.Grown n →
      Grown n (patterns.foldl (fun f p => f.linkAll p.slots) f) from hfold _ .singletons
  induction patterns with
  | nil => exact fun _ hf => hf
  | cons p patterns ih =>
    obtain ⟨hp, hpatterns⟩ := List.forall_mem_cons.mp hlt
    exact fun f hf => ih hpatterns _ (hf.linkAll hp)

/-- **It keeps the colours that no pattern mixes** and no others. -/
theorem keeps_ofPatterns_iff :
    Keeps colour (ofPatterns n patterns) ↔ ∀ p ∈ patterns, p.OfOneColour colour := by
  suffices hfold : ∀ f : Forest, f.Grown n →
      (Keeps colour (patterns.foldl (fun f p => f.linkAll p.slots) f)
        ↔ Keeps colour f ∧ ∀ p ∈ patterns, p.OfOneColour colour) from
    (hfold _ .singletons).trans (and_iff_right (keeps_singletons colour n))
  induction patterns with
  | nil => exact fun _ _ => (and_iff_left (List.forall_mem_nil _)).symm
  | cons p patterns ih =>
    intro f hf
    obtain ⟨hp, hpatterns⟩ := List.forall_mem_cons.mp hlt
    refine (ih hpatterns _ (hf.linkAll hp)).trans ?_
    rw [hf.keeps_linkAll_iff hp, forall_neighbours_iff, List.forall_mem_cons, and_assoc]
    rfl

end Patterns

end Forest

end TripleScript
