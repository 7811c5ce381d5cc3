import TripleScript.Plan.Explain
import TripleScript.Proofs.Plan.Sound

/-!
# Planning stays within its tables

Planning looks into the forest of groups, into the marks of what is bound,
into the scans that are left and into the slots, and it takes numbers from
three. Each of these can go wrong: a number may not be a place, and what is
taken may be too much. The functions of the model are total, and where a place
is missing they go on with something else. So that a missing place shows, this
gives each of them once more with every look checked: `Checked.plan` and the
functions below it come to nothing as soon as a place is missing or a
difference would be negative.

They never do. If the patterns and the columns keep to the slots of the query,
as they do in a compiled one, each checked function comes to what the
unchecked one gives: `Checked.groupCount_eq`, `Checked.orderScans_eq` and,
with what the store answers, `Checked.plan_eq`. What carries the first is that
no slot points out of the forest (`Forest.InRange`), what carries the second
that the marks are those of the slots bound (`marksOf`).
-/

namespace TripleScript

namespace Checked

/-- The list with one place set, if there is that place. -/
def setAt {α : Type} (xs : List α) (i : ℕ) (a : α) : Option (List α) :=
  if i < xs.length then some (xs.set i a) else none

theorem setAt_eq {α : Type} {xs : List α} {i : ℕ} (h : i < xs.length) (a : α) :
    setAt xs i a = some (xs.set i a) :=
  if_pos h

/-- What is left of a number, if not too much is taken from it. -/
def minus (n k : ℕ) : Option ℕ :=
  if k ≤ n then some (n - k) else none

theorem minus_eq {n k : ℕ} (h : k ≤ n) : minus n k = some (n - k) :=
  if_pos h

/-- **Checked steps that come to what the unchecked steps give make a row of
steps that does**, if every step keeps what they rely on. -/
theorem foldlM_eq {α β : Type} {Keeps : β → Prop} {f : β → α → Option β} {g : β → α → β}
    {xs : List α} (hstep : ∀ b, Keeps b → ∀ x ∈ xs, f b x = some (g b x) ∧ Keeps (g b x))
    {b : β} (hb : Keeps b) : xs.foldlM f b = some (xs.foldl g b) ∧ Keeps (xs.foldl g b) := by
  induction xs generalizing b with
  | nil => exact ⟨rfl, hb⟩
  | cons x xs ih =>
    obtain ⟨hx, hkeeps⟩ := hstep b hb x List.mem_cons_self
    rw [List.foldlM_cons, hx]
    exact ih (fun b hb x hx => hstep b hb x (List.mem_cons_of_mem _ hx)) hkeeps

/-! ## Groups -/

/-- As `Forest.findWithin`, with every look into the forest checked. -/
def findWithin : ℕ → Forest → ℕ → Option (ℕ × Forest)
  | 0, f, i => some (i, f)
  | fuel + 1, f, i => do
    let parent ← f[i]?
    if parent = i then return (i, f)
    let above ← f[parent]?
    findWithin fuel (← setAt f i above) above

/-- As `Forest.find`. -/
def find (f : Forest) (i : ℕ) : Option (ℕ × Forest) :=
  findWithin f.length f i

/-- As `Forest.link`. -/
def link (f : Forest) (i j : ℕ) : Option Forest := do
  let (a, f) ← find f i
  let (b, f) ← find f j
  if a = b then return f
  setAt f a b

/-- As `Forest.linkAll`. -/
def linkAll (f : Forest) (slots : List ℕ) : Option Forest :=
  (slots.zip slots.tail).foldlM (fun f (i, j) => link f i j) f

/-- As `Forest.roots`. -/
def roots (f : Forest) : List ℕ → Option (List ℕ)
  | [] => some []
  | i :: is => do
    let (r, f) ← find f i
    return r :: (← roots f is)

/-- As `TripleScript.groupCount`. -/
def groupCount (patterns : List SlotPattern) (slots : ℕ) : Option ℕ := do
  let forest ← patterns.foldlM (fun f p => linkAll f p.slots) (Forest.singletons slots)
  return (← roots forest (List.range slots)).eraseDups.length

end Checked

/-- **No slot points out of the forest.** -/
structure Forest.InRange (n : ℕ) (f : Forest) : Prop where
  /-- Each slot has a parent. -/
  length : f.length = n
  /-- Each parent is a slot. -/
  lt : ∀ p ∈ f, p < n

namespace Forest.InRange

variable {n i j : ℕ} {f : Forest}

theorem singletons (n : ℕ) : InRange n (Forest.singletons n) where
  length := List.length_range
  lt _ hp := List.mem_range.mp hp

/-- The parent of a slot is found in the forest. -/
theorem getElem? (h : f.InRange n) (hi : i < n) : f[i]? = some (f.parent i) ∧ f.parent i < n := by
  have hlt : i < f.length := h.length ▸ hi
  have hparent : f.parent i = f[i] := List.getD_eq_getElem _ _ hlt
  rw [hparent]
  exact ⟨List.getElem?_eq_getElem hlt, h.lt _ (List.getElem_mem hlt)⟩

/-- Pointing a slot to another one stays in the forest. -/
theorem set (h : f.InRange n) (i : ℕ) (hj : j < n) : InRange n (f.set i j) where
  length := by rw [List.length_set, h.length]
  lt p hp := by
    rcases List.mem_or_eq_of_mem_set hp with hp | rfl
    · exact h.lt p hp
    · exact hj

/-- **Climbing stays in the forest**, however long it takes. -/
theorem findWithin_eq (h : f.InRange n) (hi : i < n) (fuel : ℕ) :
    Checked.findWithin fuel f i = some (f.findWithin fuel i)
      ∧ (f.findWithin fuel i).1 < n ∧ (f.findWithin fuel i).2.InRange n := by
  induction fuel generalizing f i with
  | zero => exact ⟨rfl, hi, h⟩
  | succ fuel ih =>
    obtain ⟨hparent, hlt⟩ := h.getElem? hi
    obtain ⟨habove, hlt'⟩ := h.getElem? hlt
    simp only [Checked.findWithin, Forest.findWithin, hparent, habove, Option.bind_eq_bind,
      Option.bind_some]
    split
    case isTrue => exact ⟨rfl, hi, h⟩
    case isFalse =>
      rw [Checked.setAt_eq (h.length ▸ hi)]
      exact ih (h.set i hlt') hlt'

/-- The root above a slot is found in the forest. -/
theorem find_eq (h : f.InRange n) (hi : i < n) :
    Checked.find f i = some (f.find i) ∧ (f.find i).1 < n ∧ (f.find i).2.InRange n :=
  h.findWithin_eq hi f.length

/-- **Linking two slots stays in the forest.** -/
theorem link_eq (h : f.InRange n) (hi : i < n) (hj : j < n) :
    Checked.link f i j = some (f.link i j) ∧ (f.link i j).InRange n := by
  obtain ⟨hfind, ha, h₁⟩ := h.find_eq hi
  obtain ⟨hfind', hb, h₂⟩ := h₁.find_eq hj
  simp only [Checked.link, Forest.link, hfind, hfind', Option.bind_eq_bind, Option.bind_some]
  split
  case isTrue => exact ⟨rfl, h₂⟩
  case isFalse => exact ⟨Checked.setAt_eq (h₂.length ▸ ha) _, h₂.set _ hb⟩

/-- Linking the slots of a pattern stays in the forest. -/
theorem linkAll_eq (h : f.InRange n) {slots : List ℕ} (hslots : ∀ i ∈ slots, i < n) :
    Checked.linkAll f slots = some (f.linkAll slots) ∧ (f.linkAll slots).InRange n := by
  refine Checked.foldlM_eq (fun f hf pair hpair => ?_) h
  obtain ⟨hi, hj⟩ := List.of_mem_zip hpair
  exact hf.link_eq (hslots _ hi) (hslots _ (List.mem_of_mem_tail hj))

/-- The roots above some slots are found in the forest. -/
theorem roots_eq (h : f.InRange n) {slots : List ℕ} (hslots : ∀ i ∈ slots, i < n) :
    Checked.roots f slots = some (f.roots slots) := by
  induction slots generalizing f with
  | nil => rfl
  | cons i is ih =>
    obtain ⟨hfind, -, h₁⟩ := h.find_eq (hslots i List.mem_cons_self)
    simp only [Checked.roots, Forest.roots, hfind, Option.bind_eq_bind, Option.bind_some,
      ih h₁ fun i hi => hslots i (List.mem_cons_of_mem _ hi)]
    rfl

end Forest.InRange

/-- **Counting groups stays in the forest** if the patterns keep to the
slots. -/
theorem Checked.groupCount_eq {patterns : List SlotPattern} {slots : ℕ}
    (h : ∀ p ∈ patterns, ∀ i ∈ p.slots, i < slots) :
    Checked.groupCount patterns slots = some (TripleScript.groupCount patterns slots) := by
  have hlink : ∀ f : Forest, f.InRange slots → ∀ p ∈ patterns,
      linkAll f p.slots = some (f.linkAll p.slots) ∧ (f.linkAll p.slots).InRange slots :=
    fun f hf p hp => hf.linkAll_eq (h p hp)
  obtain ⟨hforest, hrange⟩ := foldlM_eq hlink (Forest.InRange.singletons slots)
  have hroots := hrange.roots_eq fun i hi => List.mem_range.mp hi
  unfold Checked.groupCount TripleScript.groupCount
  rw [hforest]
  simp only [Option.bind_eq_bind, Option.bind_some, hroots]
  rfl

/-! ## The order of the scans -/

namespace Checked

/-- As `ScanStep.openingRank`, with the difference checked. -/
def openingRank (s : ScanStep) : Option Rank := do
  return (s.estimate, ← minus 3 s.pattern.constants, s.source)

/-- The marks of some slots, each of which has to be one. -/
def marksAt (marks : List Bool) (slots : List ℕ) : Option (List Bool) :=
  slots.mapM (marks[·]?)

/-- As `ScanStep.joiningRank`, with the marks for the slots bound so far. -/
def joiningRank (marks : List Bool) (s : ScanStep) : Option Rank := do
  let boundPositions := s.pattern.constants + (← marksAt marks s.pattern.slots).count true
  return (← minus 3 boundPositions, s.estimate, s.source)

/-- As `ScanStep.isTied`. -/
def isTied (marks : List Bool) (s : ScanStep) : Option Bool := do
  return s.pattern.constants == 3 || (← marksAt marks s.pattern.slots).any id

/-- As `JoinOrder.least?`. -/
def least (eligible : ScanStep → Option Bool) (rank : ScanStep → Option Rank) :
    List ScanStep → Option (Option (ℕ × Rank))
  | [] => some none
  | s :: rest => do
    match ← eligible s, ← least eligible rank rest with
    | false, none => return none
    | false, some (i, r) => return some (i + 1, r)
    | true, none => return some (0, ← rank s)
    | true, some (i, r) =>
      let own ← rank s
      if r.before own then return some (i + 1, r) else return some (0, own)

/-- As `JoinOrder.pick?`, with `opened` for whether there has been a scan. -/
def pick (opened : Bool) (marks : List Bool) (pending : List ScanStep) : Option (Option ℕ) :=
  do
  let choice ← if opened then least (isTied marks) (joiningRank marks) pending
    else least (fun _ => some true) openingRank pending
  return choice.map (·.1)

/-- As `JoinOrder.arrange`: the scan to be taken has to be there, and every
slot that it binds has to have a mark. -/
def arrange (opened : Bool) (marks : List Bool) (pending : List ScanStep) :
    Option (List ScanStep) :=
  if pending.isEmpty then some []
  else do
    let place := (← pick opened marks pending).getD 0
    match _h : pending[place]? with
    | none => none
    | some s =>
      let marks ← s.pattern.slots.foldlM (fun marks i => setAt marks i true) marks
      return s :: (← arrange true marks (pending.eraseIdx place))
termination_by pending.length
decreasing_by
  obtain ⟨lt, -⟩ := List.getElem?_eq_some_iff.1 _h
  rw [List.length_eraseIdx_of_lt lt]
  omega

/-- As `TripleScript.orderScans`, for rows of so many slots. -/
def orderScans (slots : ℕ) (scans : List ScanStep) : Option (List ScanStep) :=
  arrange false (List.replicate slots false) scans

end Checked

/-- **The marks of `n` slots** when some of them are bound. -/
def marksOf (n : ℕ) (bound : List ℕ) : List Bool :=
  (List.range n).map bound.contains

/-- Before any scan, no mark is set. -/
theorem marksOf_nil (n : ℕ) : marksOf n [] = List.replicate n false := by
  have hmap : marksOf n [] = (List.range n).map fun _ => false := rfl
  rw [hmap, List.map_const', List.length_range]

theorem length_marksOf (n : ℕ) (bound : List ℕ) : (marksOf n bound).length = n := by
  rw [marksOf, List.length_map, List.length_range]

/-- A slot has its mark. -/
theorem getElem?_marksOf {n i : ℕ} (hi : i < n) (bound : List ℕ) :
    (marksOf n bound)[i]? = some (bound.contains i) := by
  rw [marksOf, List.getElem?_map, List.getElem?_range hi, Option.map_some]

/-- Binding one more slot sets its mark. -/
theorem set_marksOf (n i : ℕ) (bound : List ℕ) :
    (marksOf n bound).set i true = marksOf n (bound ++ [i]) := by
  refine List.ext_getElem? fun j => ?_
  by_cases hj : j < n
  · rw [getElem?_marksOf hj, List.getElem?_set, getElem?_marksOf hj]
    simp only [length_marksOf]
    grind
  · have hset : ((marksOf n bound).set i true).length ≤ j := by
      rw [List.length_set, length_marksOf]
      omega
    have hmarks : (marksOf n (bound ++ [i])).length ≤ j := by
      rw [length_marksOf]
      omega
    rw [List.getElem?_eq_none hset, List.getElem?_eq_none hmarks]

/-- Binding some more slots sets their marks. -/
theorem foldlM_setAt {n : ℕ} {slots : List ℕ} (h : ∀ i ∈ slots, i < n) (bound : List ℕ) :
    slots.foldlM (fun marks i => Checked.setAt marks i true) (marksOf n bound)
      = some (marksOf n (bound ++ slots)) := by
  induction slots generalizing bound with
  | nil =>
    rw [List.append_nil]
    rfl
  | cons i is ih =>
    have hi : i < (marksOf n bound).length := by
      rw [length_marksOf]
      exact h i List.mem_cons_self
    rw [List.foldlM_cons, Checked.setAt_eq hi, set_marksOf]
    simp only [Option.bind_eq_bind, Option.bind_some]
    rw [ih (fun i hi => h i (List.mem_cons_of_mem _ hi)), List.append_assoc,
      List.singleton_append]

namespace ScanStep

variable {n : ℕ} {s : ScanStep} (h : ∀ i ∈ s.pattern.slots, i < n) (bound : List ℕ)

/-- A pattern has no more than three fixed positions. -/
theorem openingRank_eq (s : ScanStep) : Checked.openingRank s = some s.openingRank := by
  have hthree := s.pattern.constants_add_length_slots
  rw [Checked.openingRank, Checked.minus_eq (by omega)]
  rfl

include h

/-- The slots of a scan have their marks. -/
theorem marksAt_eq :
    Checked.marksAt (marksOf n bound) s.pattern.slots
      = some (s.pattern.slots.map bound.contains) :=
  mapM_eq_some_map fun i hi => getElem?_marksOf (h i hi) bound

/-- **No more than three positions are fixed**, by a node or by a bound
slot. -/
theorem joiningRank_eq :
    Checked.joiningRank (marksOf n bound) s = some (s.joiningRank bound) := by
  have hthree := s.pattern.constants_add_length_slots
  have hcount : (s.pattern.slots.map bound.contains).count true
      = s.pattern.slots.countP bound.contains := by
    rw [List.count, List.countP_map]
    exact List.countP_congr fun i _ => by simp
  have hle : s.boundPositions bound ≤ 3 := by
    have hslots := List.countP_le_length (p := bound.contains) (l := s.pattern.slots)
    unfold boundPositions
    omega
  unfold boundPositions at hle
  rw [Checked.joiningRank, marksAt_eq h]
  simp only [Option.bind_eq_bind, Option.bind_some, hcount]
  rw [Checked.minus_eq hle]
  rfl

/-- Whether a scan is tied to the slots bound can be told by the marks. -/
theorem isTied_eq : Checked.isTied (marksOf n bound) s = some (s.isTied bound) := by
  rw [Checked.isTied, marksAt_eq h]
  simp only [Option.bind_eq_bind, Option.bind_some, List.any_map]
  rfl

end ScanStep

namespace JoinOrder

variable {n : ℕ} {pending : List ScanStep}

/-- The least scan is found if the scans can be compared. -/
theorem least?_eq {eligible : ScanStep → Bool} {rank : ScanStep → Rank}
    {eligible' : ScanStep → Option Bool} {rank' : ScanStep → Option Rank}
    (heligible : ∀ s ∈ pending, eligible' s = some (eligible s))
    (hrank : ∀ s ∈ pending, rank' s = some (rank s)) :
    Checked.least eligible' rank' pending = some (least? eligible rank pending) := by
  induction pending with
  | nil => rfl
  | cons s rest ih =>
    have hrest := ih (fun s hs => heligible s (List.mem_cons_of_mem _ hs))
      fun s hs => hrank s (List.mem_cons_of_mem _ hs)
    rw [Checked.least, least?, heligible s List.mem_cons_self, hrest]
    simp only [Option.bind_eq_bind, Option.bind_some, hrank s List.mem_cons_self]
    rcases eligible s with _ | _ <;> rcases least? eligible rank rest with _ | ⟨i, r⟩
    · rfl
    · rfl
    · rfl
    · dsimp only
      split <;> rfl

/-- The next scan is found. -/
theorem pick?_eq (bound : Option (List ℕ))
    (h : ∀ s ∈ pending, ∀ i ∈ s.pattern.slots, i < n) :
    Checked.pick bound.isSome (marksOf n (bound.getD [])) pending
      = some (pick? bound pending) := by
  unfold Checked.pick pick?
  cases bound with
  | none =>
    have hleast : Checked.least (fun _ => some true) Checked.openingRank pending
        = some (least? (fun _ => true) ScanStep.openingRank pending) :=
      least?_eq (fun _ _ => rfl) fun s _ => s.openingRank_eq
    simp only [Option.isSome_none, Bool.false_eq_true, if_false, hleast]
    rfl
  | some slots =>
    have hleast := least?_eq (fun s hs => ScanStep.isTied_eq (h s hs) slots)
      fun s hs => ScanStep.joiningRank_eq (h s hs) slots
    simp only [Option.isSome_some, if_true, Option.getD_some, hleast]
    rfl

/-- **Arranging scans takes each from those that are left** and has a mark for
every slot that it binds. -/
theorem arrange_eq (bound : Option (List ℕ)) (pending : List ScanStep)
    (h : ∀ s ∈ pending, ∀ i ∈ s.pattern.slots, i < n) :
    Checked.arrange bound.isSome (marksOf n (bound.getD [])) pending
      = some (arrange bound pending) := by
  fun_induction arrange bound pending with
  | case1 bound pending place hplace =>
    -- no scan is left, as the place chosen would be one
    have hnil : pending = [] := by
      by_contra hne
      exact Nat.not_lt.mpr (List.getElem?_eq_none_iff.mp hplace) (getD_pick?_lt_length bound hne)
    rw [hnil, Checked.arrange]
    rfl
  | case2 bound pending place s hplace ih =>
    obtain ⟨hlt, hs⟩ := List.getElem?_eq_some_iff.mp hplace
    have hrest : Checked.arrange true (marksOf n (bind bound s)) (pending.eraseIdx place)
        = some (arrange (some (bind bound s)) (pending.eraseIdx place)) :=
      ih fun t ht => h t (List.mem_of_mem_eraseIdx ht)
    have hslots := h s (hs ▸ List.getElem_mem hlt)
    have hmarks : s.pattern.slots.foldlM (fun marks i => Checked.setAt marks i true)
        (marksOf n (bound.getD [])) = some (marksOf n (bind bound s)) :=
      foldlM_setAt hslots (bound.getD [])
    have hne : pending.isEmpty = false := by
      cases pending with
      | nil => cases hlt
      | cons => rfl
    rw [Checked.arrange, hne, if_neg Bool.false_ne_true, pick?_eq bound h]
    simp only [Option.bind_eq_bind, Option.bind_some]
    split
    case h_1 hnone =>
      rw [hplace] at hnone
      cases hnone
    case h_2 t hsome =>
      obtain rfl : s = t := Option.some.inj (hplace.symm.trans hsome)
      rw [hmarks, Option.bind_some, hrest]
      rfl

end JoinOrder

/-- **Putting scans in order stays within the scans and the marks.** -/
theorem Checked.orderScans_eq {slots : ℕ} {scans : List ScanStep}
    (h : ∀ s ∈ scans, ∀ i ∈ s.pattern.slots, i < slots) :
    Checked.orderScans slots scans = some (TripleScript.orderScans scans) := by
  unfold Checked.orderScans
  rw [← marksOf_nil]
  exact JoinOrder.arrange_eq none scans h

/-! ## Plans and their explanations -/

namespace Checked

/-- As `Query.plan`, with every look into the tables checked. -/
def planQuery (capacity : ℕ) (q : Query) : SessionM PlanError (Option SelectPlan) := do
  let capacity := max capacity 1
  if capacity > maxCapacity then throw (.channelCapacity capacity maxCapacity)
  match groupCount q.patterns q.slots.length with
  | none => return none
  | some groups =>
    if groups > 1 then throw (.cartesianProduct groups)
    let scans ← EStateM.adaptExcept .store (estimateScans 0 q.patterns)
    return do
      let steps ← orderScans q.slots.length scans
      let columns ← q.projection.mapM (q.slots[·]?)
      return {
        steps
        slotCount := q.slots.length
        columns
        projection := q.projection
        distinct := q.distinct
        limit := q.limit
        capacity }

/-- As `Command.plan`. -/
def plan (capacity : ℕ) : Command → SessionM PlanError (Option Plan)
  | .insert ts => do refuseReadOnly .insert; return some (.insert ts)
  | .delete ts => do refuseReadOnly .delete; return some (.delete ts)
  | .select q => return (← planQuery capacity q).map .select

/-- As `SelectPlan.scanOperators`: there has to be a first scan. -/
def scanOperators (p : SelectPlan) : Option (List Operator) := do
  let first ← p.steps[0]?
  return ((p.steps.drop 1).map (ScanStep.operator none)).reverse
    ++ [first.operator (some p.capacity)]

/-- As `Plan.operators`. -/
def operators (store : String) : Plan → Option (List Operator)
  | .select p => do
    return [⟨"Project", [("columns", ",".intercalate p.columns), ("store", store)]⟩]
      ++ p.limit.toList.map (fun n => ⟨"Limit", [("rows", toString n)]⟩)
      ++ (if p.distinct then [⟨"Distinct", []⟩] else [])
      ++ (← scanOperators p)
  | p => some (p.operators store)

/-- As `Plan.explain`. -/
def explain (store : String) (p : Plan) : Option String := do
  return String.join ((← operators store p).zipIdx.map fun (op, depth) => op.line depth)

/-- **A plan with a scan can be explained.** -/
theorem explain_eq (store : String) {p : SelectPlan} (h : p.steps ≠ []) :
    explain store (.select p) = some (Plan.explain store (.select p)) := by
  have hscans : scanOperators p = some p.scanOperators := by
    unfold scanOperators SelectPlan.scanOperators
    cases hsteps : p.steps with
    | nil => exact absurd hsteps h
    | cons first rest => rfl
  unfold explain operators
  dsimp only
  rw [hscans]
  rfl

/-- **Planning a query stays within its tables** if its patterns and its
columns keep to its slots: with the same answers of the store it comes to the
same plan or the same error. -/
theorem planQuery_eq {q : Query} (hpatterns : ∀ p ∈ q.patterns, ∀ i ∈ p.slots, i < q.slots.length)
    (hprojection : ∀ i ∈ q.projection, i < q.slots.length) (capacity : ℕ) :
    planQuery capacity q = some <$> q.plan capacity := by
  have hcolumns : q.projection.mapM (q.slots[·]?) = some (q.projection.map (q.slots.getD · "")) :=
    mapM_eq_some_map fun i hi => by
      rw [List.getElem?_eq_getElem (hprojection i hi),
        List.getD_eq_getElem _ _ (hprojection i hi)]
  funext s
  unfold planQuery Query.plan
  rw [groupCount_eq hpatterns]
  dsimp only
  by_cases hcapacity : max capacity 1 > maxCapacity
  · rw [if_pos hcapacity, if_pos hcapacity]
    rfl
  rw [if_neg hcapacity, if_neg hcapacity]
  by_cases hgroups : TripleScript.groupCount q.patterns q.slots.length > 1
  · rw [if_pos hgroups, if_pos hgroups]
    rfl
  rw [if_neg hgroups, if_neg hgroups]
  simp only [Functor.map, EStateM.map, bind, EStateM.bind, EStateM.adaptExcept]
  cases hscans : estimateScans 0 q.patterns s with
  | error e s' => rfl
  | ok scans s' =>
    have hslots : ∀ step ∈ scans, ∀ i ∈ step.pattern.slots, i < q.slots.length := by
      intro step hstep
      refine hpatterns _ ?_
      rw [← map_pattern_of_estimateScans hscans]
      exact List.mem_map_of_mem hstep
    simp only [orderScans_eq hslots, hcolumns]
    rfl

/-- **Planning what a text says stays within its tables.** -/
theorem plan_eq {text : String} {c : Command} (h : Command.compile text = .ok c)
    (capacity : ℕ) : plan capacity c = some <$> c.plan capacity := by
  cases c with
  | insert ts => simp only [plan, Command.plan, map_bind, map_pure]
  | delete ts => simp only [plan, Command.plan, map_bind, map_pure]
  | select q =>
    obtain ⟨statement, hparse⟩ := exists_parse_of_compile h
    obtain ⟨q', heq, hq⟩ := exists_compile_of_parse hparse h
    cases heq
    have hc := compiles_of_compile hq
    have hquery := planQuery_eq hc.binds.1 (fun i hi => hc.projection_lt hi) capacity
    simp only [plan, Command.plan, hquery, map_bind, bind_map_left, map_pure, Option.map_some]

end Checked

end TripleScript
