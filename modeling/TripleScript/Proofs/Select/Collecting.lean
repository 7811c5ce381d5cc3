import TripleScript.Proofs.Lists
import TripleScript.Select.Collector

/-!
# What a collector collects

A collector sees one row after the other, drops what it has already and tells
when it is full. What it has in the end is described by a list alone: of the
projected rows, if equal rows are given once, the first of each, and of these
the first so many (`shape`).

A collector that has seen some rows is determined by them
(`Collector.holding`), and one row more is one row more
(`Collector.push_holding`). A full collector has all that it will ever have
(`Collector.holding_append_of_isFull`), so stopping there loses nothing, and
`Collector.takeAll_holding` follows for any number of rows.
-/

namespace TripleScript

/-- The rows with equal rows given once, if they are to be. -/
def kept (distinct : Bool) (rows : List (List Node)) : List (List Node) :=
  if distinct then rows.eraseDups else rows

/-- **The rows that are wanted of all rows**: the first of equal ones, if these
are to be given once, and then no more than the limit. -/
def shape (distinct : Bool) (limit : Option ℕ) (rows : List (List Node)) :
    List (List Node) :=
  match limit with
  | none => kept distinct rows
  | some n => (kept distinct rows).take n

/-- The nodes of an assignment in some slots. -/
def readOff (projection : List ℕ) (ρ : List Node) : List Node :=
  projection.map fun i => ρ.getD i default

section Shape

variable {distinct : Bool} {rows : List (List Node)} {row : List Node}

@[simp] theorem shape_nil (limit : Option ℕ) : shape distinct limit [] = [] := by
  cases distinct <;> cases limit <;> simp [shape, kept]

/-- A further row is kept if it is new or if equal rows are kept. -/
theorem kept_append_singleton : kept distinct (rows ++ [row])
    = if distinct && (kept distinct rows).contains row then kept distinct rows
      else kept distinct rows ++ [row] := by
  cases distinct with
  | false => rfl
  | true =>
    simp only [kept, if_true, Bool.true_and, eraseDups_append_singleton, List.contains_iff_mem,
      List.mem_eraseDups]

theorem kept_prefix_append (distinct : Bool) (rows more : List (List Node)) :
    kept distinct rows <+: kept distinct (rows ++ more) := by
  cases distinct with
  | false => exact List.prefix_append rows more
  | true => exact eraseDups_prefix_append rows more

/-- **When as many rows are there as are wanted, no further row counts.** -/
theorem shape_append_of_le_length {n : ℕ}
    (h : n ≤ (shape distinct (some n) rows).length) (more : List (List Node)) :
    shape distinct (some n) (rows ++ more) = shape distinct (some n) rows := by
  obtain ⟨new, hnew⟩ := kept_prefix_append distinct rows more
  rw [shape, List.length_take] at h
  rw [shape, shape, ← hnew, List.take_append_of_le_length (Nat.le_trans h (Nat.min_le_right _ _))]

end Shape

namespace Collector

variable {c : Collector} {seen : List (List Node)}

/-- The collector after it has seen some projected rows. -/
def holding (c : Collector) (seen : List (List Node)) : Collector :=
  { c with rows := (shape c.distinct c.limit seen).toArray }

/-- A collector for a plan has seen nothing. -/
theorem ofPlan_eq_holding (p : SelectPlan) : ofPlan p = (ofPlan p).holding [] := by
  rw [holding, shape_nil]
  rfl

/-- When a collector that has seen some rows is full. -/
theorem isFull_holding : (c.holding seen).isFull = true
    ↔ ∃ n, c.limit = some n ∧ n ≤ (shape c.distinct c.limit seen).length := by
  simp only [isFull, holding, Option.any_eq_true, List.size_toArray, decide_eq_true_eq]

/-- **A full collector has all that it will ever have.** -/
theorem holding_append_of_isFull (h : (c.holding seen).isFull = true)
    (more : List (List Node)) : c.holding (seen ++ more) = c.holding seen := by
  obtain ⟨n, hlimit, hn⟩ := isFull_holding.mp h
  rw [hlimit] at hn
  unfold holding
  rw [hlimit, shape_append_of_le_length hn]

/-- A collector that is not full has all rows that are kept. -/
theorem shape_eq_kept_of_not_isFull (h : (c.holding seen).isFull = false) :
    shape c.distinct c.limit seen = kept c.distinct seen := by
  cases hlimit : c.limit with
  | none => rfl
  | some n =>
    have hn : ¬n ≤ (shape c.distinct (some n) seen).length := fun hn => by
      rw [isFull_holding.mpr ⟨n, hlimit, hlimit ▸ hn⟩] at h
      cases h
    rw [shape, List.length_take] at hn
    rw [shape]
    exact List.take_of_length_le (by omega)

/-- A collector that is not full takes one more row. -/
theorem shape_append_singleton_of_not_isFull (h : (c.holding seen).isFull = false)
    (nodes : List Node) :
    shape c.distinct c.limit (seen ++ [nodes]) = kept c.distinct (seen ++ [nodes]) := by
  have hkept := shape_eq_kept_of_not_isFull h
  cases hlimit : c.limit with
  | none => rfl
  | some n =>
    have hn : ¬n ≤ (kept c.distinct seen).length := fun hn => by
      rw [isFull_holding.mpr ⟨n, hlimit, hkept ▸ hn⟩] at h
      cases h
    rw [shape]
    refine List.take_of_length_le ?_
    rw [kept_append_singleton]
    split
    · omega
    · rw [List.length_append, List.length_singleton]
      omega

/-- **One more row for a collector is one more row seen**, and more rows are
wanted as long as the collector is not full. -/
theorem push_holding (seen : List (List Node)) {row : Row} {nodes : List Node}
    (hrow : c.project? row = some nodes) :
    (c.holding seen).push row
      = .ok (!(c.holding (seen ++ [nodes])).isFull, c.holding (seen ++ [nodes])) := by
  have hproject : (c.holding seen).project? row = some nodes := hrow
  cases hfull : (c.holding seen).isFull with
  | true =>
    rw [push, if_pos hfull, holding_append_of_isFull hfull, hfull]
    rfl
  | false =>
    have hseen := shape_eq_kept_of_not_isFull hfull
    have hnext := shape_append_singleton_of_not_isFull hfull nodes
    rw [kept_append_singleton] at hnext
    have hcontains : ((c.holding seen).distinct && (c.holding seen).rows.contains nodes)
        = (c.distinct && (kept c.distinct seen).contains nodes) := by
      simp only [holding, hseen, List.contains_toArray]
    rw [push, if_neg (by simp [hfull]), hproject]
    dsimp only
    rw [hcontains]
    -- a row that is there already changes neither side
    by_cases hdup : (c.distinct && (kept c.distinct seen).contains nodes) = true
    · rw [if_pos hdup] at hnext ⊢
      have hsame : c.holding (seen ++ [nodes]) = c.holding seen := by
        unfold holding
        rw [hnext, hseen]
      rw [hsame, hfull]
      rfl
    · rw [if_neg hdup] at hnext ⊢
      have hpush : { c.holding seen with rows := (c.holding seen).rows.push nodes }
          = c.holding (seen ++ [nodes]) := by
        simp only [holding, hnext, hseen, List.push_toArray]
      rw [hpush]

/-! ## Any number of rows -/

/-- The collector with some more rows, one after the other as long as more are
wanted, and whether more are wanted then. -/
def takeAll : List Row → Collector → Except ExecuteError (Bool × Collector)
  | [], c => .ok (true, c)
  | row :: rows, c =>
    match c.push row with
    | .error e => .error e
    | .ok (false, c) => .ok (false, c)
    | .ok (true, c) => takeAll rows c

theorem takeAll_cons (row : Row) (rows : List Row) (c : Collector) :
    takeAll (row :: rows) c
      = match c.push row with
        | .error e => .error e
        | .ok (false, c) => .ok (false, c)
        | .ok (true, c) => takeAll rows c :=
  rfl

/-- Two pieces of a list are taken one after the other. -/
theorem takeAll_append (rows more : List Row) (c : Collector) :
    takeAll (rows ++ more) c
      = match takeAll rows c with
        | .ok (true, c) => takeAll more c
        | result => result := by
  induction rows generalizing c with
  | nil => rfl
  | cons row rows ih =>
    rw [List.cons_append, takeAll_cons, takeAll_cons]
    cases c.push row with
    | error e => rfl
    | ok result =>
      obtain ⟨wanted, c'⟩ := result
      cases wanted with
      | false => rfl
      | true => exact ih c'

/-- **A collector ends up with the rows that are wanted**, whether it stopped
early or not. -/
theorem takeAll_holding (seen : List (List Node)) {rows : List Row}
    {nodes : Row → List Node}
    (hrows : ∀ row ∈ rows, c.project? row = some (nodes row)) :
    ∃ more, takeAll rows (c.holding seen) = .ok (more, c.holding (seen ++ rows.map nodes)) := by
  induction rows generalizing seen with
  | nil => exact ⟨true, by rw [List.map_nil, List.append_nil, takeAll]⟩
  | cons row rows ih =>
    have hpush := push_holding seen (hrows row List.mem_cons_self)
    have happend : seen ++ (row :: rows).map nodes
        = seen ++ [nodes row] ++ rows.map nodes := by simp
    rw [takeAll_cons, hpush, happend]
    cases hfull : (c.holding (seen ++ [nodes row])).isFull with
    | true => exact ⟨false, by rw [holding_append_of_isFull hfull]; rfl⟩
    | false => exact ih _ fun row hrow => hrows row (List.mem_cons_of_mem _ hrow)

/-- A row without an open slot has a node for every column. -/
theorem project?_map_some (ρ : List Node) (h : ∀ i ∈ c.projection, i < ρ.length) :
    c.project? (ρ.map some) = some (readOff c.projection ρ) := by
  have hnode : ∀ i ∈ c.projection, Row.node? (ρ.map some) i = some (ρ.getD i default) := by
    intro i hi
    simp [Row.node?, List.getElem?_map, List.getElem?_eq_getElem (h i hi),
      List.getD_eq_getElem?_getD]
  unfold project? readOff
  generalize c.projection = projection at hnode
  induction projection with
  | nil => rfl
  | cons i projection ih =>
    rw [List.mapM_cons, hnode i List.mem_cons_self,
      ih fun j hj => hnode j (List.mem_cons_of_mem _ hj)]
    rfl

/-! ## Without a limit -/

/-- A collector without a limit takes a row and wants more. -/
theorem push_of_unlimited {c' : Collector} {more : Bool} {row : Row} (hc : c.limit = none)
    (h : c.push row = .ok (more, c')) : more = true ∧ c'.limit = none := by
  have hfull : ∀ rows, ({ c with rows } : Collector).isFull = false := fun rows => by
    rw [isFull, hc, Option.any_none]
  rw [push, hfull c.rows, if_neg Bool.false_ne_true] at h
  cases hrow : c.project? row with
  | none =>
    rw [hrow] at h
    cases h
  | some nodes =>
    rw [hrow] at h
    dsimp only at h
    split at h
    · cases h
      exact ⟨rfl, hc⟩
    · rw [hfull] at h
      cases h
      exact ⟨rfl, hc⟩

/-- It never has all the rows that it wants. -/
theorem takeAll_of_unlimited {c' : Collector} {more : Bool} {rows : List Row}
    (hc : c.limit = none) (h : takeAll rows c = .ok (more, c')) :
    more = true ∧ c'.limit = none := by
  induction rows generalizing c with
  | nil =>
    cases h
    exact ⟨rfl, hc⟩
  | cons row rows ih =>
    rw [takeAll_cons] at h
    cases hpush : c.push row with
    | error e =>
      rw [hpush] at h
      cases h
    | ok result =>
      obtain ⟨wanted, c₁⟩ := result
      obtain ⟨rfl, hc₁⟩ := push_of_unlimited hc hpush
      rw [hpush] at h
      exact ih hc₁ h

end Collector

end TripleScript
