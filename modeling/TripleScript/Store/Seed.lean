import TripleScript.Text.Blank
import TripleScript.Text.Lines
import TripleScript.Statement.Ground
import TripleScript.Store.Memory

/-!
# Seed files

A seed file has one ground triple per line; lines that are blank or begin
with `#` are left out. Either all of its triples go into the store or none
does: the first line that is no triple is reported by its number in the file.
-/

namespace TripleScript

open Text

/-- The part of a line that counts: without the blanks around it, and nothing
if that leaves an empty text or a comment. -/
def lineContent? (line : List Char) : Option String :=
  match trim line with
  | [] => none
  | c :: cs => if c = '#' then none else some (String.ofList (c :: cs))

/-- The triples of some lines, of which the first is number `line`. -/
def seedTriples (path : String) (line : Nat) :
    List (List Char) → Except SystemError (List Triple)
  | [] => .ok []
  | l :: ls =>
    match lineContent? l with
    | none => seedTriples path (line + 1) ls
    | some text =>
      match Triple.parse text with
      | .error e => .error (.seed path line e.message)
      | .ok t => (seedTriples path (line + 1) ls).map (t :: ·)

/-- **The store with the triples of a seed text**, and how many of them are
new. A store that takes no writes is seeded like any other. -/
def MemoryStore.seed (m : MemoryStore) (path : String)
    (content : Except ReadFailure String) : Except SystemError (Nat × MemoryStore) :=
  match content with
  | .error failure => .error (.io failure)
  | .ok text =>
    match seedTriples path 1 (lines text.toList) with
    | .error e => .error e
    | .ok ts =>
      let (n, triples) := m.triples.insertAll ts
      .ok (n, { m with triples })

end TripleScript
