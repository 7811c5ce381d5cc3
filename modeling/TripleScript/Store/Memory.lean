import TripleScript.Store.Index
import TripleScript.SystemError

/-!
# The store in memory

A `MemoryStore` has a name, a set of triples in three orders, and a mark that
forbids writing. Writing counts what it changes: inserting counts the triples
that were not there, erasing those that were.

Reading comes in two forms. `scan` gives everything a lookup accepts, and
`page` a number of triples after a cursor. A page can be had in two ways,
and an `Access` says which: from the index, where the cursor is a place in
the order, or from a scan, where it is a place in the list.

`mem_insertAll` and `mem_eraseAll` say what writing makes of the set.
-/

namespace TripleScript

namespace Indexes

/-- The indexes with some more triples, and how many of them are new. -/
def insertAll (ix : Indexes) (ts : List Triple) : Nat × Indexes :=
  ts.foldl (fun (n, ix) t => (if t ∈ ix then n else n + 1, ix.insert t)) (0, ix)

/-- The indexes without some triples, and how many of them were there. -/
def eraseAll (ix : Indexes) (ts : List Triple) : Nat × Indexes :=
  ts.foldl (fun (n, ix) t => (if t ∈ ix then n + 1 else n, ix.erase t)) (0, ix)

/-- **Inserting triples is a union.** -/
theorem mem_insertAll {ix : Indexes} {ts : List Triple} {u : Triple} :
    u ∈ (ix.insertAll ts).2 ↔ u ∈ ts ∨ u ∈ ix := by
  suffices h : ∀ acc : Nat × Indexes, u ∈ (ts.foldl (fun (n, ix) t =>
      (if t ∈ ix then n else n + 1, ix.insert t)) acc).2 ↔ u ∈ ts ∨ u ∈ acc.2 from
    h (0, ix)
  induction ts with
  | nil => simp
  | cons t ts ih => intro acc; rw [List.foldl_cons, ih]; simp; grind

/-- **Erasing triples is a difference.** -/
theorem mem_eraseAll {ix : Indexes} {ts : List Triple} {u : Triple} :
    u ∈ (ix.eraseAll ts).2 ↔ u ∉ ts ∧ u ∈ ix := by
  suffices h : ∀ acc : Nat × Indexes, u ∈ (ts.foldl (fun (n, ix) t =>
      (if t ∈ ix then n + 1 else n, ix.erase t)) acc).2 ↔ u ∉ ts ∧ u ∈ acc.2 from
    h (0, ix)
  induction ts with
  | nil => simp
  | cons t ts ih => intro acc; rw [List.foldl_cons, ih]; simp; grind

end Indexes

/-- How a store finds a page. -/
inductive Access where
  /-- By its place in an index. -/
  | indexed
  /-- By its place in a scan, with what every store can do. -/
  | scanning
deriving DecidableEq, Inhabited, Repr

/-- A store in memory. -/
structure MemoryStore where
  /-- The name of the store in messages. -/
  name : String
  /-- Whether writing is forbidden. -/
  readOnly : Bool := false
  /-- The triples. -/
  triples : Indexes := ∅

namespace MemoryStore

instance : Inhabited MemoryStore := ⟨{ name := "" }⟩

/-- How many triples the store has. -/
def size (m : MemoryStore) : Nat :=
  m.triples.size

/-- The store with some more triples, and how many of them are new. -/
def insert (m : MemoryStore) (ts : List Triple) :
    Except SystemError (Nat × MemoryStore) :=
  if m.readOnly then .error (.readOnly m.name)
  else
    let (n, triples) := m.triples.insertAll ts
    .ok (n, { m with triples })

/-- The store without some triples, and how many of them were there. -/
def erase (m : MemoryStore) (ts : List Triple) :
    Except SystemError (Nat × MemoryStore) :=
  if m.readOnly then .error (.readOnly m.name)
  else
    let (n, triples) := m.triples.eraseAll ts
    .ok (n, { m with triples })

/-- The triples a lookup accepts, in the order of its arrangement. -/
def scan (m : MemoryStore) (l : Lookup) : List Triple :=
  m.triples.read l none

/-- What follows the first occurrence of the cursor in a list: nothing if it
does not occur. -/
def behind (cursor : Triple) (ts : List Triple) : List Triple :=
  (ts.dropWhile (· != cursor)).drop 1

/-- At most `limit` triples that the lookup accepts and that come after the
cursor, or the first ones if there is none. -/
def page (m : MemoryStore) (access : Access) (l : Lookup) (after : Option Triple)
    (limit : Nat) : List Triple :=
  match access, after with
  | .indexed, after => (m.triples.read l after).take limit
  | .scanning, some cursor => (behind cursor (m.scan l)).take limit
  | .scanning, none => (m.scan l).take limit

/-- The pages after a cursor, each read from behind the last triple of the one
before, up to the first empty page; at most `count` of them. -/
def pagesFrom (m : MemoryStore) (access : Access) (l : Lookup) (limit : Nat) :
    Nat → Option Triple → List (List Triple)
  | 0, _ => []
  | count + 1, after =>
    let page := m.page access l after limit
    if page.isEmpty then [] else page :: m.pagesFrom access l limit count page.getLast?

/-- **All pages of a lookup.** A page that is not empty has a triple in it, so
there are no more pages than triples. -/
def pages (m : MemoryStore) (access : Access) (l : Lookup) (limit : Nat) :
    List (List Triple) :=
  m.pagesFrom access l limit m.size none

/-- How many triples a lookup accepts. An index knows its size. -/
def count (m : MemoryStore) (access : Access) (l : Lookup) : Nat :=
  if access = .indexed ∧ l.bound = 0 then m.size else (m.scan l).length

/-- All triples, in the order of an unbound scan. -/
def toList (m : MemoryStore) : List Triple :=
  m.scan .any

end MemoryStore

end TripleScript
