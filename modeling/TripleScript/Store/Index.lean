import Std.Data.ExtTreeSet
import TripleScript.Triple

/-!
# Ordered indexes

A store keeps its triples three times, each time as a set in another order:
by subject, predicate, object; by predicate, object, subject; and by object,
subject, predicate. Whatever positions a lookup names, one of the three
orders has the triples it accepts next to each other, up to a filter, so
reading starts at a known place and stops at the first triple that leads
elsewhere.

An order is an `Arrangement` of the three positions. The sets are
extensional, so equal contents are equal sets, and `Indexes` carries the
proof that its three sets hold the same triples: `mem_insert` and `mem_erase`
say what a change does to all of them at once.
-/

namespace TripleScript

/-- The order in which the positions of a triple are compared. -/
inductive Arrangement where
  /-- Subject, then predicate, then object. -/
  | spo
  /-- Predicate, then object, then subject. -/
  | pos
  /-- Object, then subject, then predicate. -/
  | osp
deriving DecidableEq, Repr

namespace Arrangement

/-- The node compared first. -/
def first : Arrangement → Triple → Node
  | spo, t => t.subject
  | pos, t => t.predicate
  | osp, t => t.object

/-- The node compared second. -/
def second : Arrangement → Triple → Node
  | spo, t => t.predicate
  | pos, t => t.object
  | osp, t => t.subject

/-- The node compared last. -/
def third : Arrangement → Triple → Node
  | spo, t => t.object
  | pos, t => t.subject
  | osp, t => t.predicate

/-- **The order of an arrangement**: position by position, and within a
position by the code points of the texts. -/
def compare (a : Arrangement) : Triple → Triple → Ordering :=
  compareLex (compareOn fun t => (a.first t).text)
    (compareLex (compareOn fun t => (a.second t).text)
      (compareOn fun t => (a.third t).text))

instance (a : Arrangement) : Std.TransCmp a.compare := by
  unfold compare; infer_instance

/-- Triples that compare equal in one arrangement are equal. -/
theorem eq_of_compare {a : Arrangement} {t u : Triple}
    (h : a.compare t u = .eq) : t = u := by
  simp only [compare, compareLex_eq_eq, compareOn, Std.compare_eq_iff_eq] at h
  obtain ⟨⟨s⟩, ⟨p⟩, ⟨o⟩⟩ := t
  obtain ⟨⟨s'⟩, ⟨p'⟩, ⟨o'⟩⟩ := u
  cases a <;> obtain ⟨rfl, rfl, rfl⟩ := h <;> rfl

instance (a : Arrangement) : Std.LawfulEqCmp a.compare where
  eq_of_compare := eq_of_compare

end Arrangement

/-- Some triples in the order of subject, predicate and object. -/
def Triple.sort (ts : List Triple) : List Triple :=
  ts.mergeSort fun t u => (Arrangement.spo.compare t u).isLE

/-- A set of triples, read in the order of an arrangement. -/
abbrev Index (a : Arrangement) := Std.ExtTreeSet Triple a.compare

/-- One set of triples in three orders. -/
structure Indexes where
  /-- The triples by subject, predicate, object. -/
  spo : Index .spo := ∅
  /-- The triples by predicate, object, subject. -/
  pos : Index .pos := ∅
  /-- The triples by object, subject, predicate. -/
  osp : Index .osp := ∅
  /-- The second order has the triples of the first. -/
  mem_pos : ∀ t, t ∈ pos ↔ t ∈ spo := by simp
  /-- The third order has the triples of the first. -/
  mem_osp : ∀ t, t ∈ osp ↔ t ∈ spo := by simp

namespace Indexes

instance : Inhabited Indexes := ⟨{}⟩

instance : EmptyCollection Indexes := ⟨{}⟩

instance : Membership Triple Indexes := ⟨fun ix t => t ∈ ix.spo⟩

instance (ix : Indexes) (t : Triple) : Decidable (t ∈ ix) :=
  inferInstanceAs (Decidable (t ∈ ix.spo))

/-- Membership is membership in the first order. -/
theorem mem_def {ix : Indexes} {t : Triple} : t ∈ ix ↔ t ∈ ix.spo := .rfl

/-- The number of triples. -/
def size (ix : Indexes) : Nat :=
  ix.spo.size

/-- Nothing is in the empty indexes. -/
@[simp] theorem not_mem_empty (t : Triple) : t ∉ (∅ : Indexes) :=
  Std.ExtTreeSet.not_mem_empty

/-- The indexes are determined by what they hold. -/
@[ext] theorem ext {ix jx : Indexes} (h : ∀ t, t ∈ ix ↔ t ∈ jx) : ix = jx := by
  have hs : ix.spo = jx.spo := Std.ExtTreeSet.ext_mem h
  have hp : ix.pos = jx.pos := Std.ExtTreeSet.ext_mem fun t => by
    rw [ix.mem_pos, jx.mem_pos, hs]
  have ho : ix.osp = jx.osp := Std.ExtTreeSet.ext_mem fun t => by
    rw [ix.mem_osp, jx.mem_osp, hs]
  cases ix; cases jx
  simp_all

/-- The indexes with one more triple. The second and the third order are
touched only if the first one did not have it. -/
def insert (ix : Indexes) (t : Triple) : Indexes :=
  if t ∈ ix.spo then ix
  else
    { spo := ix.spo.insert t
      pos := ix.pos.insert t
      osp := ix.osp.insert t
      mem_pos := fun u => by simp [ix.mem_pos]
      mem_osp := fun u => by simp [ix.mem_osp] }

/-- The indexes without a triple. The second and the third order are touched
only if the first one had it. -/
def erase (ix : Indexes) (t : Triple) : Indexes :=
  if t ∈ ix.spo then
    { spo := ix.spo.erase t
      pos := ix.pos.erase t
      osp := ix.osp.erase t
      mem_pos := fun u => by simp [ix.mem_pos]
      mem_osp := fun u => by simp [ix.mem_osp] }
  else ix

/-- **Inserting adds one triple.** -/
@[simp] theorem mem_insert {ix : Indexes} {t u : Triple} :
    u ∈ ix.insert t ↔ t = u ∨ u ∈ ix := by
  unfold insert
  split
  case isTrue h =>
    refine ⟨Or.inr, ?_⟩
    rintro (rfl | hu)
    · exact h
    · exact hu
  case isFalse => simp [mem_def]

/-- **Erasing removes one triple.** -/
@[simp] theorem mem_erase {ix : Indexes} {t u : Triple} :
    u ∈ ix.erase t ↔ t ≠ u ∧ u ∈ ix := by
  unfold erase
  split
  case isTrue => simp [mem_def]
  case isFalse h =>
    refine ⟨fun hu => ⟨?_, hu⟩, And.right⟩
    rintro rfl
    exact h hu

/-- The triples in the order of an arrangement. -/
def toList (ix : Indexes) : Arrangement → List Triple
  | .spo => ix.spo.toList
  | .pos => ix.pos.toList
  | .osp => ix.osp.toList

/-- Each order lists the triples held. -/
@[simp] theorem mem_toList {ix : Indexes} {a : Arrangement} {t : Triple} :
    t ∈ ix.toList a ↔ t ∈ ix := by
  cases a <;> simp [toList, mem_def, ix.mem_pos, ix.mem_osp]

/-- **Each order is strictly increasing**, so it lists no triple twice. -/
theorem pairwise_toList (ix : Indexes) (a : Arrangement) :
    (ix.toList a).Pairwise fun t u => a.compare t u = .lt := by
  cases a <;> exact Std.ExtTreeSet.ordered_toList

end Indexes

namespace Lookup

/-- The arrangement in which a lookup is read: the one that begins with the
positions named. -/
def arrangement (l : Lookup) : Arrangement :=
  match l.subject, l.predicate, l.object with
  | some _, _, _ => .spo
  | none, some _, _ => .pos
  | none, none, some _ => .osp
  | none, none, none => .spo

/-- Whether a triple begins, in the arrangement of the lookup, with the nodes
wanted. A lookup that names subject and object only has the predicate
between them, and reads all triples of its subject. -/
def leads (l : Lookup) (t : Triple) : Bool :=
  match l.subject with
  | some s => s == t.subject && fits l.predicate t.predicate
  | none => l.accepts t

/-- A triple that is not after any triple that begins with the nodes wanted:
the empty text comes first among the texts. -/
def start (l : Lookup) : Triple where
  subject := l.subject.getD ⟨""⟩
  predicate := l.predicate.getD ⟨""⟩
  object := if l.subject.isSome then ⟨""⟩ else l.object.getD ⟨""⟩

end Lookup

namespace Indexes

/-- Whether a triple comes before the place where reading begins: at or
before the cursor, if there is one, and else before the start of the
lookup. -/
def skips (l : Lookup) (after : Option Triple) (t : Triple) : Bool :=
  match after with
  | some cursor => l.arrangement.compare t cursor != .gt
  | none => l.arrangement.compare t l.start == .lt

/-- **What a lookup reads**, strictly after the cursor if one is given: the
stretch of its order that leads with the nodes wanted, filtered. -/
def read (ix : Indexes) (l : Lookup) (after : Option Triple) : List Triple :=
  (((ix.toList l.arrangement).dropWhile (skips l after)).takeWhile l.leads).filter
    l.accepts

end Indexes

end TripleScript
