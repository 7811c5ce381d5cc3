import Mathlib.Combinatorics.SimpleGraph.Connectivity.Connected
import Mathlib.SetTheory.Cardinal.Finite
import TripleScript.Proofs.Plan.Forest

/-!
# Groups are components

Draw the patterns that have slots as the nodes of a graph, and an edge between
any two that share one (`patternGraph`). A query is refused for pairing rows
that have nothing to do with each other if this graph falls apart, and the
number in the refusal is that of its components.

The planner does not look at the graph: it links slots and counts roots. A
component becomes the root above any slot of any of its patterns. All of them
have the same root, since the forest keeps its roots as colours and no pattern
mixes them; and patterns of different components have different roots, since
"belongs to this component" is a colour that no pattern mixes. So there are as
many roots as components (`groupCount_eq_card_components`). Which roots they are
depends on the order of the patterns, and how many there are does not
(`groupCount_congr`). `planning_refuses_components` says what that means for
planning.
-/

namespace TripleScript

open Forest (ofPatterns)

variable {patterns : List SlotPattern} {n : ℕ}

/-! ## Counting roots -/

/-- As many elements remain as there are different ones. -/
theorem length_eraseDups_eq_card {α : Type} [DecidableEq α] (xs : List α) :
    xs.eraseDups.length = xs.toFinset.card := by
  have hset : xs.toFinset = xs.eraseDups.toFinset := by
    ext x
    rw [List.mem_toFinset, List.mem_toFinset, List.mem_eraseDups]
  rw [hset, List.toFinset_card_of_nodup (nodup_eraseDups xs)]

/-- **The roots found one after the other are the roots of the forest**, though
each climb changes it. -/
theorem Forest.Rooted.roots_eq_map {f : Forest} (h : f.Rooted n) {slots : List ℕ}
    (hslots : ∀ i ∈ slots, i < n) : f.roots slots = slots.map f.rootOf := by
  induction slots generalizing f with
  | nil => rfl
  | cons i slots ih =>
    obtain ⟨hi, hslots⟩ := List.forall_mem_cons.mp hslots
    show f.rootOf i :: (f.find i).2.roots slots = f.rootOf i :: slots.map f.rootOf
    rw [ih (h.find hi) hslots]
    refine congrArg (f.rootOf i :: ·) (List.map_congr_left fun j hj => ?_)
    exact h.rootOf_find hi (hslots j hj)

/-- The roots above the slots. -/
def groupRoots (n : ℕ) (patterns : List SlotPattern) : Finset ℕ :=
  (Finset.range n).image (ofPatterns n patterns).rootOf

/-- **The groups are counted by their roots.** -/
theorem groupCount_eq_card_groupRoots (hlt : ∀ p ∈ patterns, ∀ i ∈ p.slots, i < n) :
    groupCount patterns n = (groupRoots n patterns).card := by
  have hrooted := (Forest.grown_ofPatterns hlt).rooted
  have hroots := hrooted.roots_eq_map fun i hi => List.mem_range.mp hi
  show ((ofPatterns n patterns).roots (List.range n)).eraseDups.length = _
  rw [hroots, length_eraseDups_eq_card, groupRoots]
  refine congrArg Finset.card (Finset.ext fun r => ?_)
  rw [List.mem_toFinset, List.mem_map, Finset.mem_image]
  simp only [List.mem_range, Finset.mem_range]

/-- **Slots of one pattern have one root.** -/
theorem rootOf_ofOneColour (hlt : ∀ p ∈ patterns, ∀ i ∈ p.slots, i < n) :
    ∀ p ∈ patterns, p.OfOneColour (ofPatterns n patterns).rootOf := by
  exact (Forest.keeps_ofPatterns_iff hlt).mp (Forest.grown_ofPatterns hlt).rooted.keeps_rootOf

/-- **Slots with one root have the same colour** in all colours that no pattern
mixes. -/
theorem colour_eq_of_rootOf_eq {α : Type} {colour : ℕ → α}
    (hlt : ∀ p ∈ patterns, ∀ i ∈ p.slots, i < n) (hcolour : ∀ p ∈ patterns, p.OfOneColour colour)
    {i j : ℕ} (h : (ofPatterns n patterns).rootOf i = (ofPatterns n patterns).rootOf j) :
    colour i = colour j := by
  have hkeeps := (Forest.keeps_ofPatterns_iff hlt).mpr hcolour
  have hi : colour ((ofPatterns n patterns).rootOf i) = colour i := (hkeeps.find i).1
  have hj : colour ((ofPatterns n patterns).rootOf j) = colour j := (hkeeps.find j).1
  rw [← hi, h, hj]

/-- **The count depends on the colours alone**: patterns that mix the same colours
fall into the same number of groups. -/
theorem groupCount_congr {patterns' : List SlotPattern}
    (hlt : ∀ p ∈ patterns, ∀ i ∈ p.slots, i < n) (hlt' : ∀ p ∈ patterns', ∀ i ∈ p.slots, i < n)
    (h : ∀ colour : ℕ → ℕ,
      (∀ p ∈ patterns, p.OfOneColour colour) ↔ ∀ p ∈ patterns', p.OfOneColour colour) :
    groupCount patterns n = groupCount patterns' n := by
  -- each forest keeps the roots of both
  have hown := (Forest.grown_ofPatterns hlt).rooted.keeps_rootOf
  have hown' := (Forest.grown_ofPatterns hlt').rooted.keeps_rootOf
  have hother := (Forest.keeps_ofPatterns_iff hlt).mpr ((h _).mpr (rootOf_ofOneColour hlt'))
  have hother' := (Forest.keeps_ofPatterns_iff hlt').mpr ((h _).mp (rootOf_ofOneColour hlt))
  rw [groupCount_eq_card_groupRoots hlt, groupCount_eq_card_groupRoots hlt']
  refine Finset.card_nbij' (ofPatterns n patterns').rootOf (ofPatterns n patterns).rootOf
    ?_ ?_ ?_ ?_
  · intro r hr
    obtain ⟨i, hi, rfl⟩ := Finset.mem_image.mp hr
    exact Finset.mem_image.mpr ⟨i, hi, ((hother.find i).1).symm⟩
  · intro r hr
    obtain ⟨i, hi, rfl⟩ := Finset.mem_image.mp hr
    exact Finset.mem_image.mpr ⟨i, hi, ((hother'.find i).1).symm⟩
  · intro r hr
    obtain ⟨i, -, rfl⟩ := Finset.mem_image.mp hr
    exact ((hother'.find _).1).trans (hown.find i).1
  · intro r hr
    obtain ⟨i, -, rfl⟩ := Finset.mem_image.mp hr
    exact ((hother.find _).1).trans (hown'.find i).1

/-! ## Components -/

/-- A pattern that has slots, by its place. -/
abbrev OpenPattern (patterns : List SlotPattern) : Type :=
  {k : Fin patterns.length // patterns[k].slots ≠ []}

/-- Its slots. -/
def OpenPattern.slots (a : OpenPattern patterns) : List ℕ := patterns[a.1].slots

/-- **The graph of the patterns that have slots**, with an edge between two that
share one. -/
def patternGraph (patterns : List SlotPattern) : SimpleGraph (OpenPattern patterns) :=
  .fromRel fun a b => ∃ i ∈ a.slots, i ∈ b.slots

namespace OpenPattern

variable {a b : OpenPattern patterns} {i j : ℕ}

theorem slots_ne_nil (a : OpenPattern patterns) : a.slots ≠ [] := a.2

theorem mem (a : OpenPattern patterns) : patterns[a.1] ∈ patterns :=
  List.getElem_mem a.1.isLt

/-- Patterns that share a slot are in one component. -/
theorem reachable_of_mem (hi : i ∈ a.slots) (hi' : i ∈ b.slots) :
    (patternGraph patterns).Reachable a b := by
  by_cases hab : a = b
  · rw [hab]
  · refine SimpleGraph.Adj.reachable ?_
    exact (SimpleGraph.fromRel_adj _ _ _).mpr ⟨hab, .inl ⟨i, hi, hi'⟩⟩

/-- **Patterns of one component have slots of one colour.** -/
theorem colour_eq_of_reachable {α : Type} {colour : ℕ → α}
    (hcolour : ∀ p ∈ patterns, p.OfOneColour colour)
    (h : (patternGraph patterns).Reachable a b) (hi : i ∈ a.slots) (hj : j ∈ b.slots) :
    colour i = colour j := by
  rw [SimpleGraph.reachable_iff_reflTransGen] at h
  induction h generalizing j with
  | refl => exact hcolour _ a.mem i hi j hj
  | @tail c b _ hadj ih =>
    obtain ⟨-, hshared⟩ := (SimpleGraph.fromRel_adj _ _ _).mp hadj
    rcases hshared with ⟨k, hc, hb⟩ | ⟨k, hb, hc⟩
    · exact (ih hc).trans (hcolour _ b.mem k hb j hj)
    · exact (ih hc).trans (hcolour _ b.mem k hb j hj)

/-- **Patterns with one root are in one component.** -/
theorem reachable_of_rootOf_eq (hlt : ∀ p ∈ patterns, ∀ i ∈ p.slots, i < n)
    (hi : i ∈ a.slots) (hj : j ∈ b.slots)
    (h : (ofPatterns n patterns).rootOf i = (ofPatterns n patterns).rootOf j) :
    (patternGraph patterns).Reachable a b := by
  -- the colour of a slot is whether it occurs in the component of `a`
  let inside : ℕ → Prop := fun k => ∃ c, (patternGraph patterns).Reachable a c ∧ k ∈ c.slots
  have hinside : ∀ p ∈ patterns, p.OfOneColour inside := by
    intro p hp k hk l hl
    obtain ⟨place, hplace, rfl⟩ := List.getElem_of_mem hp
    have hspread : ∀ {k l}, k ∈ patterns[place].slots → l ∈ patterns[place].slots →
        inside k → inside l := by
      rintro k l hk hl ⟨c, hac, hkc⟩
      let d : OpenPattern patterns := ⟨⟨place, hplace⟩, List.ne_nil_of_mem hk⟩
      exact ⟨d, hac.trans (reachable_of_mem hkc hk), hl⟩
    exact propext ⟨hspread hk hl, hspread hl hk⟩
  have heq : inside i = inside j := colour_eq_of_rootOf_eq hlt hinside h
  obtain ⟨c, hac, hjc⟩ : inside j := heq ▸ ⟨a, .refl a, hi⟩
  exact hac.trans (reachable_of_mem hjc hj)

/-- The root above its slots. -/
def root (n : ℕ) (a : OpenPattern patterns) : ℕ :=
  (ofPatterns n patterns).rootOf (a.slots.head a.slots_ne_nil)

/-- **Two patterns have the same root exactly if they are in one component.** -/
theorem root_eq_iff (hlt : ∀ p ∈ patterns, ∀ i ∈ p.slots, i < n) :
    a.root n = b.root n ↔ (patternGraph patterns).Reachable a b := by
  have ha := List.head_mem a.slots_ne_nil
  have hb := List.head_mem b.slots_ne_nil
  exact ⟨reachable_of_rootOf_eq hlt ha hb,
    fun h => colour_eq_of_reachable (rootOf_ofOneColour hlt) h ha hb⟩

end OpenPattern

/-- **There are as many groups as components**, if every slot occurs in some
pattern. -/
theorem groupCount_eq_card_components (hlt : ∀ p ∈ patterns, ∀ i ∈ p.slots, i < n)
    (hoccurs : ∀ i < n, ∃ p ∈ patterns, i ∈ p.slots) :
    groupCount patterns n = Nat.card (patternGraph patterns).ConnectedComponent := by
  have hmem : ∀ a : OpenPattern patterns, a.root n ∈ groupRoots n patterns := fun a =>
    Finset.mem_image_of_mem _ (Finset.mem_range.mpr (hlt _ a.mem _ (List.head_mem a.slots_ne_nil)))
  let toRoot : (patternGraph patterns).ConnectedComponent → groupRoots n patterns :=
    SimpleGraph.ConnectedComponent.lift (fun a => ⟨a.root n, hmem a⟩) fun _ _ walk _ =>
      Subtype.ext ((OpenPattern.root_eq_iff hlt).mpr walk.reachable)
  have hinjective : Function.Injective toRoot := by
    refine SimpleGraph.ConnectedComponent.ind₂ fun a b hab => ?_
    exact SimpleGraph.ConnectedComponent.sound
      ((OpenPattern.root_eq_iff hlt).mp (congrArg Subtype.val hab))
  have hsurjective : Function.Surjective toRoot := by
    rintro ⟨r, hr⟩
    obtain ⟨i, hi, rfl⟩ := Finset.mem_image.mp hr
    obtain ⟨p, hp, hip⟩ := hoccurs i (Finset.mem_range.mp hi)
    obtain ⟨place, hplace, rfl⟩ := List.getElem_of_mem hp
    let a : OpenPattern patterns := ⟨⟨place, hplace⟩, List.ne_nil_of_mem hip⟩
    refine ⟨(patternGraph patterns).connectedComponentMk a, Subtype.ext ?_⟩
    exact rootOf_ofOneColour hlt _ hp _ (List.head_mem a.slots_ne_nil) _ hip
  rw [groupCount_eq_card_groupRoots hlt, Nat.card_eq_of_bijective toRoot ⟨hinjective, hsurjective⟩,
    Nat.card_eq_fintype_card, Fintype.card_coe]

/-- **Neither the order of the patterns nor those without slots count.** -/
theorem groupCount_eq_of_perm {patterns' : List SlotPattern}
    (hlt : ∀ p ∈ patterns, ∀ i ∈ p.slots, i < n)
    (hperm : (patterns'.filter (!·.slots.isEmpty)).Perm (patterns.filter (!·.slots.isEmpty))) :
    groupCount patterns' n = groupCount patterns n := by
  have hopen : ∀ p : SlotPattern, p.slots ≠ [] → (p ∈ patterns' ↔ p ∈ patterns) := by
    intro p hp
    have hmem := hperm.mem_iff (a := p)
    rwa [List.mem_filter, List.mem_filter, and_iff_left, and_iff_left] at hmem <;> simpa using hp
  refine groupCount_congr (fun p hp i hi => ?_) hlt fun colour => ?_
  · exact hlt p ((hopen p (List.ne_nil_of_mem hi)).mp hp) i hi
  · constructor
    · intro h p hp i hi
      exact h p ((hopen p (List.ne_nil_of_mem hi)).mpr hp) i hi
    · intro h p hp i hi
      exact h p ((hopen p (List.ne_nil_of_mem hi)).mp hp) i hi

/-! ## Planning -/

/-- **Patterns of several groups are refused before the store is asked**, and
nothing else is refused for this reason. -/
theorem Query.plan_eq_cartesianProduct_iff {q : Query} {capacity groups : ℕ} {s s' : Session}
    (hcapacity : max capacity 1 ≤ maxCapacity) :
    q.plan capacity s = .error (.cartesianProduct groups) s'
      ↔ s' = s ∧ 1 < groupCount q.patterns q.slots.length
        ∧ groups = groupCount q.patterns q.slots.length := by
  unfold Query.plan
  dsimp only
  rw [if_neg (not_lt.mpr hcapacity)]
  split
  case isTrue hseveral =>
    constructor
    · intro h
      cases h
      exact ⟨rfl, hseveral, rfl⟩
    · rintro ⟨rfl, -, rfl⟩
      rfl
  case isFalse hone =>
    refine iff_of_false (fun h => ?_) fun h => hone h.2.1
    simp only [bind, EStateM.bind, EStateM.adaptExcept] at h
    cases hscans : estimateScans 0 q.patterns s <;> rw [hscans] at h <;> cases h

/-- **Planning refuses a query exactly if its graph falls apart**, and counts the
components. In whatever way links and climbs have shaped a forest of its slots,
and so the forest of its patterns, every climb comes to its end, at a root. The
number of groups is that of the components of the graph of the patterns with
slots; and if the patterns are put in another order, and patterns without slots
are put in or left out, then a capacity that can be had is all that it takes for
planning to be refused with the number of components if and only if there is more
than one. -/
theorem planning_refuses_components {st : SelectStatement} {q : Query}
    (hq : st.compile = .ok q) :
    (∀ f : Forest, f.Grown q.slots.length → ∀ i < q.slots.length,
        f.Climbs i (f.find i).1 (f.find i).2 ∧ (f.find i).2.parent (f.find i).1 = (f.find i).1)
      ∧ (ofPatterns q.slots.length q.patterns).Grown q.slots.length
      ∧ groupCount q.patterns q.slots.length
        = Nat.card (patternGraph q.patterns).ConnectedComponent
      ∧ ∀ q' : Query, q'.slots = q.slots →
        (q'.patterns.filter (!·.slots.isEmpty)).Perm (q.patterns.filter (!·.slots.isEmpty)) →
        ∀ capacity, max capacity 1 ≤ maxCapacity → ∀ groups s s',
          q'.plan capacity s = .error (.cartesianProduct groups) s'
            ↔ s' = s ∧ 1 < Nat.card (patternGraph q.patterns).ConnectedComponent
              ∧ groups = Nat.card (patternGraph q.patterns).ConnectedComponent := by
  obtain ⟨hlt, hoccurs⟩ := (compiles_of_compile hq).binds
  have hcount := groupCount_eq_card_components hlt hoccurs
  refine ⟨fun f hf i hi => ?_, Forest.grown_ofPatterns hlt, hcount, ?_⟩
  · have hclimb := hf.climbs_find hi
    exact ⟨hclimb, hclimb.isRoot⟩
  · intro q' hslots hperm capacity hcapacity groups s s'
    rw [Query.plan_eq_cartesianProduct_iff hcapacity, hslots, groupCount_eq_of_perm hlt hperm,
      hcount]

/-- A query with a chain of three patterns, the one in the middle last, a
condition, and a pattern of its own. -/
def chainAndLoop : SelectStatement where
  distinct := false
  projection := .all
  patterns :=
    [⟨.var "a", .node ⟨"p"⟩, .var "b", default⟩, ⟨.var "c", .node ⟨"p"⟩, .var "d", default⟩,
      ⟨.node ⟨"x"⟩, .node ⟨"y"⟩, .node ⟨"z"⟩, default⟩, ⟨.var "e", .node ⟨"r"⟩, .var "e", default⟩,
      ⟨.var "b", .node ⟨"q"⟩, .var "c", default⟩]
  limit := none

/-- Its compiled form. -/
def chainAndLoopQuery : Query where
  slots := ["?a", "?b", "?c", "?d", "?e"]
  patterns :=
    [⟨.slot 0, .const ⟨"p"⟩, .slot 1⟩, ⟨.slot 2, .const ⟨"p"⟩, .slot 3⟩,
      ⟨.const ⟨"x"⟩, .const ⟨"y"⟩, .const ⟨"z"⟩⟩, ⟨.slot 4, .const ⟨"r"⟩, .slot 4⟩,
      ⟨.slot 1, .const ⟨"q"⟩, .slot 2⟩]
  projection := [0, 1, 2, 3, 4]
  distinct := false
  limit := none

/-- It has two components, and it is refused with that number also from back to
front and without its condition. -/
theorem planning_refuses_chain_and_loop :
    chainAndLoop.compile = .ok chainAndLoopQuery
      ∧ Nat.card (patternGraph chainAndLoopQuery.patterns).ConnectedComponent = 2
      ∧ ∀ s : Session,
        { chainAndLoopQuery with
            patterns := (chainAndLoopQuery.patterns.eraseIdx 2).reverse }.plan 0 s
          = .error (.cartesianProduct 2) s := by
  have hq : chainAndLoop.compile = .ok chainAndLoopQuery := rfl
  obtain ⟨-, -, hcount, hplan⟩ := planning_refuses_components hq
  have htwo : Nat.card (patternGraph chainAndLoopQuery.patterns).ConnectedComponent = 2 := by
    rw [← hcount]
    decide
  have hperm : ((chainAndLoopQuery.patterns.eraseIdx 2).reverse.filter (!·.slots.isEmpty)).Perm
      (chainAndLoopQuery.patterns.filter (!·.slots.isEmpty)) := by
    decide
  refine ⟨hq, htwo, fun s => ?_⟩
  rw [hplan { chainAndLoopQuery with patterns := (chainAndLoopQuery.patterns.eraseIdx 2).reverse }
    rfl hperm 0 (by decide) 2 s s, htwo]
  exact ⟨rfl, by decide, rfl⟩

end TripleScript
