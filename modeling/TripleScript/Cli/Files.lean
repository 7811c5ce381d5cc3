import TripleScript.SystemError
import TripleScript.Text.Parts

/-!
# Files in memory

A call reads files by their paths. `Files` is a directory with everything
under it that is held in memory, so that a call can be gone through without a
disk. Paths are walked part by part from that directory; of what is around it
only the directories above are known, and they seem to hold nothing.
-/

namespace TripleScript.Cli

/-- A directory. -/
structure Files where
  /-- The paths of the directories in it, in parts. -/
  directories : List (List String)
  /-- The files in it with their paths in parts, and their texts, unless their
  bytes are no text. -/
  texts : List (List String × Option String)

namespace Files

/-- Where a walk along a path has come to. -/
inductive Spot where
  /-- A directory that is held in memory. -/
  | inside (path : List String)
  /-- A directory above. -/
  | above
  /-- A file. -/
  | file (text : Option String)
deriving DecidableEq, Inhabited, Repr

/-- The parts of a path between slashes. -/
def pathParts (path : String) : List String :=
  (Text.parts '/' path.toList).map String.ofList

/-- The parts of a path that name something. -/
def nameParts (path : String) : List String :=
  (pathParts path).filter fun part => part ≠ "" ∧ part ≠ "."

/-- A path in parts and the paths of all directories that it leads through. -/
def beginnings (parts : List String) : List (List String) :=
  (List.range (parts.length + 1)).map parts.take

/-- The directory with some entries; the name of a directory ends in a slash,
and a file brings the directories of its path with it. -/
def ofEntries (entries : List (String × Option String)) : Files where
  directories := entries.flatMap fun (name, _) =>
    let parts := nameParts name
    beginnings (if name.toList.getLast? = some '/' then parts else parts.dropLast)
  texts := entries.filterMap fun (name, text) =>
    if name.toList.getLast? = some '/' then none else some (nameParts name, text)

/-- The most bytes that a part of a path may have. -/
def maxPartSize : Nat := 255

/-- The most bytes that a path may have. -/
def maxPathSize : Nat := 4095

/-- The spot behind one more part of a path. -/
def step (files : Files) : Spot → String → Except ReadFailure Spot
  | .file _, _ => .error .notDirectory
  | spot, "" => .ok spot
  | spot, "." => .ok spot
  | .above, ".." => .ok .above
  | .inside [], ".." => .ok .above
  | .inside path, ".." => .ok (.inside path.dropLast)
  | spot, part =>
    if part.utf8ByteSize > maxPartSize then .error .nameTooLong
    else
      match spot with
      | .inside path =>
        match files.texts.lookup (path ++ [part]) with
        | some text => .ok (.file text)
        | none =>
          if files.directories.contains (path ++ [part]) then .ok (.inside (path ++ [part]))
          else .error .notFound
      | _ => .error .notFound

/-- The spot at the end of a path. -/
def walk (files : Files) (path : String) : Except ReadFailure Spot :=
  if path.utf8ByteSize > maxPathSize then .error .nameTooLong
  else
    let start := if path.toList.head? = some '/' then Spot.above else .inside []
    (pathParts path).foldlM files.step start

/-- **The text of the file at a path.** -/
def read (files : Files) (path : String) : Except ReadFailure String :=
  match files.walk path with
  | .error failure => .error failure
  | .ok (.file (some text)) => .ok text
  | .ok (.file none) => .error .notText
  | .ok _ => .error .isDirectory

end Files

end TripleScript.Cli
