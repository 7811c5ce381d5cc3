import TripleScript.Node

/-!
# Triples and lookups

A triple is one fact: a subject, a predicate and an object. A lookup names
the nodes it wants in some of the three positions and accepts every triple
that has them there.

`Lookup.accepts_any` and `Lookup.accepts_exact` are the two extremes: the
lookup that wants nothing accepts everything, and the one that names all
three positions accepts one triple.
-/

namespace TripleScript

/-- One fact. -/
structure Triple where
  /-- What the fact is about. -/
  subject : Node
  /-- What is said of it. -/
  predicate : Node
  /-- What it is said with. -/
  object : Node
deriving DecidableEq, Inhabited, Repr

namespace Triple

/-- The triple as statements and seed files write it. -/
def written (t : Triple) : String :=
  s!"({t.subject}, {t.predicate}, {t.object})"

instance : ToString Triple := ⟨written⟩

end Triple

/-- The nodes wanted in the three positions; `none` takes any node. -/
structure Lookup where
  /-- The subject wanted. -/
  subject : Option Node
  /-- The predicate wanted. -/
  predicate : Option Node
  /-- The object wanted. -/
  object : Option Node
deriving DecidableEq, Inhabited, Repr

namespace Lookup

/-- The lookup that wants nothing. -/
def any : Lookup := ⟨none, none, none⟩

/-- The lookup that wants one triple. -/
def exact (t : Triple) : Lookup := ⟨some t.subject, some t.predicate, some t.object⟩

/-- How many positions are named. -/
def bound (l : Lookup) : Nat :=
  l.subject.toList.length + l.predicate.toList.length + l.object.toList.length

/-- Whether a position takes a node: it wants that node or none in
particular. -/
def fits (wanted : Option Node) (n : Node) : Bool :=
  wanted.all (· == n)

/-- Whether a triple has the wanted nodes. -/
def accepts (l : Lookup) (t : Triple) : Bool :=
  fits l.subject t.subject && fits l.predicate t.predicate && fits l.object t.object

/-- The lookup that wants nothing accepts every triple. -/
@[simp] theorem accepts_any (t : Triple) : any.accepts t = true := rfl

/-- A triple is accepted when every named position has the node it wants. -/
theorem accepts_iff {l : Lookup} {t : Triple} :
    l.accepts t = true ↔ (∀ n ∈ l.subject, n = t.subject)
      ∧ (∀ n ∈ l.predicate, n = t.predicate) ∧ ∀ n ∈ l.object, n = t.object := by
  simp [accepts, fits, Option.all_eq_true, and_assoc]

/-- **A lookup that names all three positions accepts one triple.** -/
theorem accepts_exact {t u : Triple} : (exact t).accepts u = true ↔ t = u := by
  cases t; cases u
  simp [accepts_iff, exact]

end Lookup

end TripleScript
