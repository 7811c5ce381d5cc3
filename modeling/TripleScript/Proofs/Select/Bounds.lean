import TripleScript.Proofs.Plan.Bounds
import TripleScript.Proofs.Session.Frame

/-!
# Joining stays within its rows

Binding a triple looks into the row for the slots of the pattern, and it sets
them. As for planning, this gives the join once more with each look checked,
from `Checked.bindTerm` for one position to `Checked.run` for a whole plan,
and shows that no look misses: a row has a place for each slot that the scans
of a sound plan bind, and binding changes what is in a row, not how long it is
(`Checked.bind_eq`). So with whatever trouble the store makes the checked run
comes to what the unchecked one comes to (`Checked.run_eq`).
-/

namespace TripleScript

namespace Checked

/-- As `SlotTerm.bind`: the row has to have a place for the slot. -/
def bindTerm (n : Node) (row : Row) : SlotTerm → Option (Option Row)
  | .const m => some (if m = n then some row else none)
  | .slot i => do
    match ← row[i]? with
    | some m => return if m = n then some row else none
    | none => return some (← setAt row i (some n))

/-- As `SlotPattern.bind`. -/
def bind (p : SlotPattern) (t : Triple) (row : Row) : Option (Option Row) := do
  let some row ← bindTerm t.subject row p.subject | return none
  let some row ← bindTerm t.predicate row p.predicate | return none
  bindTerm t.object row p.object

/-- As `TripleScript.joinEach`. -/
def joinEach (p : SlotPattern) (row : Row)
    (next : Row → Collector → SelectM (Option (Bool × Collector))) :
    List Triple → Collector → SelectM (Option (Bool × Collector))
  | [], c => return some (true, c)
  | t :: ts, c =>
    match bind p t row with
    | none => return none
    | some none => joinEach p row next ts c
    | some (some extended) => do
      match ← next extended c with
      | none => return none
      | some (more, c) => if more then joinEach p row next ts c else return some (false, c)

/-- As `TripleScript.extend`. -/
def extend : List ScanStep → Row → Collector → SelectM (Option (Bool × Collector))
  | [], row, c => some <$> collect row c
  | step :: steps, row, c => do
    checkCancelled
    let ts ← EStateM.adaptExcept .store (Session.scan (step.pattern.lookup row))
    joinEach step.pattern row (extend steps) ts c

/-- As `SelectPlan.joinTriple`. -/
def joinTriple (p : SelectPlan) (first : ScanStep) (rest : List ScanStep) (t : Triple)
    (c : Collector) : SelectM (Option (Bool × Collector)) :=
  match bind first.pattern t (Row.empty p.slotCount) with
  | none => return none
  | some none => return some (true, c)
  | some (some row) => extend rest row c

/-- As `SelectPlan.joinHanded`. -/
def joinHanded (p : SelectPlan) (first : ScanStep) (rest : List ScanStep) :
    List Triple → Collector → Session → Option (Joined × Session)
  | [], c, s => some (⟨[], .ok (true, c)⟩, s)
  | t :: ts, c, s =>
    if s.cancelled then some (⟨t :: ts, .error .cancelled⟩, s)
    else
      match joinTriple p first rest t c s with
      | .error e s => some (⟨ts, .error e⟩, s)
      | .ok none _ => none
      | .ok (some (false, c)) s => some (⟨ts, .ok (false, c)⟩, s)
      | .ok (some (true, c)) s => joinHanded p first rest ts c s

/-- As `SelectPlan.takeTurns`. -/
def takeTurns (p : SelectPlan) (watched : Bool) (first : ScanStep) (rest : List ScanStep)
    (turns : ℕ) (turn : Turn) (c : Collector) (s : Session) : Option (Ending × Session) :=
  if watched && s.cancelled then some (.abandoned, s)
  else do
    let (joined, s) ← joinHanded p first rest turn.handed c s
    let spent := turn.handed.length = joined.left.length + turnSize
    let settle := SelectPlan.settle watched (turn.feed.isWaiting || spent) turn.feed s
    match joined.result with
    | .error e => some (settle (.error e), s)
    | .ok (false, c) => some (settle (.ok (p.answer c)), s)
    | .ok (true, c) =>
      if s.cancelled then some (settle (.error .cancelled), s)
      else
        match turns, turn.feed with
        | turns + 1, .waiting page full =>
          let (turn, s) := handOver (first.pattern.lookup (Row.empty p.slotCount))
            p.capacity (turnQuota p.capacity) page full s
          takeTurns p watched first rest turns turn c s
        | _, _ => some (settle (.ok (p.answer c)), s)

/-- As `SelectPlan.run`. -/
def runSelect (p : SelectPlan) (watched : Bool) (s : Session) : Option (Ending × Session) :=
  match p.steps with
  | [] => some (.finished (.error (.defect .noSteps)), s)
  | first :: rest =>
    let (turn, s) := firstTurn (first.pattern.lookup (Row.empty p.slotCount)) p.capacity s
    takeTurns p watched first rest s.store.memory.size turn (.ofPlan p) s

/-- As `Plan.run`. -/
def run (p : Plan) (watched : Bool) (s : Session) : Option (Ending × Session) :=
  if s.cancelled then some (.finished (.error .cancelled), s)
  else
    match p with
    | .insert ts => some (Ending.ofWrite (Session.insert ts) s)
    | .delete ts => some (Ending.ofWrite (Session.erase ts) s)
    | .select p => runSelect p watched s

section Rows

variable {row : Row}

/-- Binding a position finds its slot in the row. -/
theorem bindTerm_eq {term : SlotTerm} (h : ∀ i ∈ term.slot?, i < row.length) (n : Node) :
    bindTerm n row term = some (term.bind n row) := by
  cases term with
  | const m => rfl
  | slot i =>
    have hi : i < row.length := h i rfl
    have hnode : row.node? i = row[i] := by
      rw [Row.node?, List.getElem?_eq_getElem hi]
      rfl
    unfold bindTerm SlotTerm.bind
    dsimp only
    rw [List.getElem?_eq_getElem hi, hnode]
    simp only [Option.bind_eq_bind, Option.bind_some]
    cases row[i] with
    | some m => rfl
    | none =>
      rw [setAt_eq hi]
      rfl

/-- **Binding a triple finds the slots of the pattern in the row.** -/
theorem bind_eq {p : SlotPattern} (h : ∀ i ∈ p.slots, i < row.length) (t : Triple) :
    bind p t row = some (p.bind t row) := by
  simp only [SlotPattern.mem_slots] at h
  have hsubject := bindTerm_eq (fun i hi => h i (.inl hi)) t.subject
  unfold bind SlotPattern.bind
  simp only [hsubject, Option.bind_eq_bind, Option.bind_some]
  cases hrow : p.subject.bind t.subject row with
  | none => rfl
  | some row₁ =>
    have hlen₁ := SlotTerm.length_of_bind hrow
    have hpredicate : bindTerm t.predicate row₁ p.predicate = some _ :=
      bindTerm_eq (fun i hi => hlen₁ ▸ h i (.inr (.inl hi))) t.predicate
    simp only [hpredicate, Option.bind_some]
    cases hrow₁ : p.predicate.bind t.predicate row₁ with
    | none => rfl
    | some row₂ =>
      have hlen₂ := (SlotTerm.length_of_bind hrow₁).trans hlen₁
      exact bindTerm_eq (fun i hi => hlen₂ ▸ h i (.inr (.inr hi))) t.object

/-- **Going through the triples of a scan stays within the row** if the scans
behind it stay within rows that are as long. -/
theorem joinEach_eq {p : SlotPattern} (h : ∀ i ∈ p.slots, i < row.length)
    {next : Row → Collector → SelectM (Bool × Collector)}
    {next' : Row → Collector → SelectM (Option (Bool × Collector))}
    (hnext : ∀ extended : Row, extended.length = row.length →
      ∀ c, next' extended c = some <$> next extended c) (ts : List Triple) (c : Collector) :
    joinEach p row next' ts c = some <$> TripleScript.joinEach p row next ts c := by
  induction ts generalizing c with
  | nil => rfl
  | cons t ts ih =>
    unfold joinEach TripleScript.joinEach
    rw [bind_eq h]
    cases hbind : p.bind t row with
    | none => exact ih c
    | some extended =>
      dsimp only
      rw [hnext extended (SlotPattern.length_of_bind hbind)]
      simp only [bind_map_left, map_bind]
      refine bind_congr fun result => ?_
      obtain ⟨more, c'⟩ := result
      cases more with
      | false => rfl
      | true => exact ih c'

/-- **Extending a row stays within it** if the scans keep to its slots. -/
theorem extend_eq {steps : List ScanStep}
    (h : ∀ step ∈ steps, ∀ i ∈ step.pattern.slots, i < row.length) (c : Collector) :
    extend steps row c = some <$> TripleScript.extend steps row c := by
  induction steps generalizing row c with
  | nil => rfl
  | cons step steps ih =>
    unfold extend TripleScript.extend
    simp only [map_bind]
    refine bind_congr fun _ => bind_congr fun ts => ?_
    refine joinEach_eq (h step List.mem_cons_self) (fun extended hlen c => ?_) ts c
    exact ih (fun step hstep => hlen ▸ h step (List.mem_cons_of_mem _ hstep)) c

end Rows

section Runs

/-- Marking the results of a step as found does not change what it does. -/
theorem map_some_apply {ε α : Type} (x : SessionM ε α) (s : Session) :
    (some <$> x : SessionM ε (Option α)) s
      = match x s with
        | .ok a s => .ok (some a) s
        | .error e s => .error e s := by
  show EStateM.map some x s = _
  unfold EStateM.map
  cases x s <;> rfl

variable {p : SelectPlan} {first : ScanStep} {rest : List ScanStep}
  (h : ∀ step ∈ first :: rest, ∀ i ∈ step.pattern.slots, i < p.slotCount)

include h

/-- Joining a triple of the first scan stays within the row. -/
theorem joinTriple_eq (t : Triple) (c : Collector) :
    joinTriple p first rest t c = some <$> p.joinTriple first rest t c := by
  have hlen : (Row.empty p.slotCount).length = p.slotCount := Row.length_empty _
  unfold joinTriple SelectPlan.joinTriple
  have hfirst : ∀ i ∈ first.pattern.slots, i < (Row.empty p.slotCount).length := by
    rw [hlen]
    exact h first List.mem_cons_self
  rw [bind_eq hfirst]
  cases hbind : first.pattern.bind t (Row.empty p.slotCount) with
  | none => rfl
  | some row =>
    have hrow := (SlotPattern.length_of_bind hbind).trans hlen
    exact extend_eq (fun step hstep => hrow ▸ h step (List.mem_cons_of_mem _ hstep)) c

/-- A turn of the join stays within its rows. -/
theorem joinHanded_eq (ts : List Triple) (c : Collector) (s : Session) :
    joinHanded p first rest ts c s = some (p.joinHanded first rest ts c s) := by
  fun_induction SelectPlan.joinHanded p first rest ts c s with
  | case1 => rfl
  | case2 t ts c s hc => rw [joinHanded, if_pos hc]
  | case3 t ts c s hc e s' hjoin =>
    rw [joinHanded, if_neg hc, joinTriple_eq h, map_some_apply, hjoin]
  | case4 t ts c s hc c' s' hjoin =>
    rw [joinHanded, if_neg hc, joinTriple_eq h, map_some_apply, hjoin]
  | case5 t ts c s hc c' s' hjoin ih =>
    rw [joinHanded, if_neg hc, joinTriple_eq h, map_some_apply, hjoin]
    exact ih

/-- **The turns of a query stay within its rows.** -/
theorem takeTurns_eq (watched : Bool) (turns : ℕ) (turn : Turn) (c : Collector) (s : Session) :
    takeTurns p watched first rest turns turn c s
      = some (p.takeTurns watched first rest turns turn c s) := by
  fun_induction SelectPlan.takeTurns p watched first rest turns turn c s with
  | case1 turns turn c s hc => rw [takeTurns, if_pos hc]
  | case2 turns turn c s hc joined s' hjoin spent settle e hresult =>
    rw [takeTurns, if_neg hc, joinHanded_eq h, hjoin]
    simp only [Option.bind_eq_bind, Option.bind_some, hresult]
    rfl
  | case3 turns turn c s hc joined s' hjoin spent settle c' hresult =>
    rw [takeTurns, if_neg hc, joinHanded_eq h, hjoin]
    simp only [Option.bind_eq_bind, Option.bind_some, hresult]
    rfl
  | case4 turns turn c s hc joined s' hjoin spent settle c' hresult hc' =>
    rw [takeTurns, if_neg hc, joinHanded_eq h, hjoin]
    simp only [Option.bind_eq_bind, Option.bind_some, hresult]
    rw [if_pos hc']
  | case5 turn c s hc joined s' hjoin c' hresult hc' turns page full hwait next s'' hnext ih =>
    rw [takeTurns, if_neg hc, joinHanded_eq h, hjoin]
    simp only [Option.bind_eq_bind, Option.bind_some, hresult, hwait]
    rw [if_neg hc', hnext]
    exact ih
  | case6 turns turn c s hc joined s' hjoin spent settle c' hresult hc' hstop =>
    rw [takeTurns, if_neg hc, joinHanded_eq h, hjoin]
    simp only [Option.bind_eq_bind, Option.bind_some, hresult]
    rw [if_neg hc']

end Runs

/-- **Answering a query stays within its rows** if its plan is sound, whatever
trouble the store makes. -/
theorem runSelect_eq {p : SelectPlan} (hp : p.Sound) (watched : Bool) (s : Session) :
    runSelect p watched s = some (p.run watched s) := by
  have hwithin := hp.covers.within
  unfold runSelect SelectPlan.run
  cases hsteps : p.steps with
  | nil => rfl
  | cons first rest =>
    rw [hsteps] at hwithin
    exact takeTurns_eq hwithin _ _ _ _ _

/-- **Carrying out a plan stays within its rows** if a plan made of scans is
sound. -/
theorem run_eq {p : Plan} (hp : ∀ plan, p = .select plan → plan.Sound) (watched : Bool)
    (s : Session) : run p watched s = some (p.run watched s) := by
  unfold run Plan.run
  split
  case isTrue => rfl
  case isFalse =>
    cases p with
    | insert ts => rfl
    | delete ts => rfl
    | select plan => exact runSelect_eq (hp plan rfl) watched s

end Checked

end TripleScript
