import TripleScript.Query.Basic

/-!
# Groups of patterns

Two patterns that share a slot belong together, and so do patterns that are
linked by a chain of others. A query whose patterns fall into several groups
would be answered by pairing every row of one group with every row of
another; such queries are refused, and to refuse them the groups are counted.

Every slot occurs in some pattern, so it is enough to count groups of slots.
A `Forest` keeps them: each slot points to another slot of its group or, at a
root, to itself. `Forest.find` climbs to the root, and on the way it lets the
slots it passes point to the parent of their parent.
-/

namespace TripleScript

/-- The parent of each slot, by its number. -/
abbrev Forest := List Nat

namespace Forest

/-- The forest in which every slot is a group of its own. -/
def singletons (slots : Nat) : Forest :=
  List.range slots

/-- The parent of a slot. A number that is no slot has itself as its
parent. -/
def parent (f : Forest) (i : Nat) : Nat :=
  f.getD i i

/-- The root above a slot, climbing at most `fuel` times, and the forest with
the shortened path. -/
def findWithin : Nat → Forest → Nat → Nat × Forest
  | 0, f, i => (i, f)
  | fuel + 1, f, i =>
    if f.parent i = i then (i, f)
    else
      let above := f.parent (f.parent i)
      findWithin fuel (f.set i above) above

/-- **The root above a slot**, and the forest with the shortened path. No path
is longer than the forest. -/
def find (f : Forest) (i : Nat) : Nat × Forest :=
  findWithin f.length f i

/-- The forest in which the groups of two slots are one. -/
def link (f : Forest) (i j : Nat) : Forest :=
  let (a, f) := f.find i
  let (b, f) := f.find j
  if a = b then f else f.set a b

/-- The forest in which neighbours of a row of slots are in one group. -/
def linkAll (f : Forest) (slots : List Nat) : Forest :=
  (slots.zip slots.tail).foldl (fun f (i, j) => f.link i j) f

/-- The roots above some slots. -/
def roots (f : Forest) : List Nat → List Nat
  | [] => []
  | i :: is =>
    let (r, f) := f.find i
    r :: f.roots is

end Forest

/-- **How many groups the patterns fall into.** Patterns without slots belong
to no group. -/
def groupCount (patterns : List SlotPattern) (slots : Nat) : Nat :=
  let forest := patterns.foldl (fun f p => f.linkAll p.slots) (Forest.singletons slots)
  (forest.roots (List.range slots)).eraseDups.length

end TripleScript
