import TripleScript.Cli.Regex.Class
import TripleScript.Cli.Regex.Group

/-!
# Regular expressions

An expression has branches with bars between them, and a branch is a row of
parts: primitives, classes, groups, and flags. Every part but flags may be
repeated. Groups, classes, repetitions, rows and branches may be nested, but
not too deep.

A repetition can also be counted, with the count in braces. As a brace ends
the field that the expression stands in, no count is ever complete, and so a
brace that opens one is refused.

`isExpression` decides which texts are expressions. It reads from left to
right; `Reading` is what it keeps of the text it has read.
-/

namespace TripleScript.Cli.Regex

/-- How deep the parts of an expression may be nested. -/
def maxDepth : Nat := 250

/-- A branch as far as it has been read. -/
structure Branch where
  /-- How many parts it has. -/
  count : Nat := 0
  /-- How deep they are. -/
  depth : Nat := 0
  /-- How deep the last part is, if it may be repeated. -/
  last : Option Nat := none
deriving DecidableEq, Inhabited, Repr

namespace Branch

/-- The branch with one more part. -/
def add (b : Branch) (depth : Nat) : Branch :=
  ⟨b.count + 1, max b.depth depth, some depth⟩

/-- The branch with flags behind its parts. -/
def addFlags (b : Branch) : Branch :=
  ⟨b.count + 1, b.depth, none⟩

/-- The branch with its last part repeated. -/
def repeated? (b : Branch) : Option Branch :=
  b.last.map fun depth => ⟨b.count, max b.depth (depth + 1), some (depth + 1)⟩

/-- How deep the branch is; several parts make a row. -/
def level (b : Branch) : Nat :=
  if b.count ≤ 1 then b.depth else b.depth + 1

end Branch

/-- A group that has been opened, or the whole expression. -/
structure OpenGroup where
  /-- The flags that hold at the place that has been reached. -/
  flags : Flags := {}
  /-- The branch that is being read. -/
  branch : Branch := {}
  /-- How deep the branches before it are, if there are any. -/
  before : Option Nat := none
deriving DecidableEq, Inhabited, Repr

namespace OpenGroup

/-- The group with one more part. -/
def add (g : OpenGroup) (depth : Nat) : OpenGroup :=
  { g with branch := g.branch.add depth }

/-- The group with the next branch begun. -/
def branchOff (g : OpenGroup) : OpenGroup :=
  { g with branch := {}, before := some (max (g.before.getD 0) g.branch.level) }

/-- How deep the group is inside; several branches count as one level more. -/
def level (g : OpenGroup) : Nat :=
  match g.before with
  | none => g.branch.level
  | some before => max before g.branch.level + 1

end OpenGroup

/-- What is kept of the text that has been read. -/
structure Reading where
  /-- The innermost group. -/
  group : OpenGroup := {}
  /-- The groups around it. -/
  outer : List OpenGroup := []
  /-- The names that groups have. -/
  names : List (List Char) := []
deriving DecidableEq, Inhabited, Repr

namespace Reading

/-- The reading with one more part in the innermost group. -/
def add (r : Reading) (depth : Nat) : Reading :=
  { r with group := r.group.add depth }

/-- The reading with a parenthesis opened; no two groups have one name. -/
def opened? (r : Reading) : Opening → Option Reading
  | .flags flags =>
    some { r with group := { r.group with flags, branch := r.group.branch.addFlags } }
  | .group flags name =>
    if name.any r.names.contains then none
    else some ⟨{ flags }, r.group :: r.outer, name.toList ++ r.names⟩

/-- The reading with a parenthesis closed. -/
def closed? (r : Reading) : Option Reading :=
  match r.outer with
  | [] => none
  | around :: outer => some ⟨around.add (r.group.level + 1), outer, r.names⟩

/-- The reading with the last part repeated. -/
def repeated? (r : Reading) : Option Reading :=
  r.group.branch.repeated?.map fun branch => { r with group := { r.group with branch } }

/-- Whether an expression may end here. -/
def isWhole (r : Reading) : Bool :=
  r.outer.isEmpty && r.group.level ≤ maxDepth

end Reading

/-- What is kept of a text once it has been read to its end. -/
def readFrom : Nat → Reading → List Char → Option Reading
  | 0, _, _ => none
  | fuel + 1, r, cs =>
    let flags := r.group.flags
    match flags.skip cs with
    | [] => some r
    | '(' :: cs => do
      let (opening, cs) ← opening? flags cs
      readFrom fuel (← r.opened? opening) cs
    | ')' :: cs => do readFrom fuel (← r.closed?) cs
    | '|' :: cs => readFrom fuel { r with group := r.group.branchOff } cs
    | '[' :: cs => do
      let (depth, cs) ← class? flags cs
      readFrom fuel (r.add depth) cs
    | '\x7b' :: _ => none
    | '.' :: cs => if flags.unicode then readFrom fuel (r.add 0) cs else none
    | '\\' :: cs => do
      let (primitive, cs) ← escape? flags cs
      if flags.allows primitive then readFrom fuel (r.add 0) cs else none
    | c :: cs =>
      if c = '?' ∨ c = '*' ∨ c = '+' then do
        let r ← r.repeated?
        readFrom fuel r (if cs.head? = some '?' then cs.drop 1 else cs)
      else if c = '^' ∨ c = '$' ∨ flags.allows (.char c false) then readFrom fuel (r.add 0) cs
      else none

/-- **Whether a text is a regular expression** that can be matched. -/
def isExpression (cs : List Char) : Bool :=
  (readFrom (cs.length + 1) {} cs).any Reading.isWhole

end TripleScript.Cli.Regex
