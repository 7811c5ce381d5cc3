/-!
# TOML values and layout

A configuration file is a TOML document. A configuration of this program is
made of strings and integers, and of the arrays and tables that hold them;
other values may only stand where nothing looks at them, and `Toml` does not
tell them apart.

A document is laid out with blanks, line ends and comments. A line end is a
line feed, perhaps with a carriage return right before it, and a comment goes
from a number sign to the end of its line.
-/

namespace TripleScript.Cli

/-- A value. -/
inductive Toml where
  /-- A string. -/
  | text (s : String)
  /-- An integer of 64 bits. -/
  | integer (i : Int)
  /-- A truth value, a float, a date or a time. -/
  | other
  /-- An array. -/
  | list (items : List Toml)
  /-- An inline table, with the parts of each key. -/
  | table (pairs : List (List String × Toml))

namespace Toml

/-- One entry of a document. -/
inductive Entry where
  /-- The header of a table, with the parts of its key. -/
  | header (key : List String)
  /-- A key, in parts, and its value. -/
  | pair (key : List String) (value : Toml)

/-- Whether a character is a blank within a line. -/
def isBlank (c : Char) : Bool :=
  c == ' ' || c == '\t'

/-- The text behind blanks. -/
def skipBlanks (cs : List Char) : List Char :=
  cs.dropWhile isBlank

/-- Whether a character may stand in a comment or a string. -/
def isPrintable (c : Char) : Bool :=
  c == '\t' || (0x20 ≤ c.toNat && c.toNat != 0x7f)

/-- The text behind a line end. -/
def lineEnd? : List Char → Option (List Char)
  | '\n' :: cs => some cs
  | '\r' :: '\n' :: cs => some cs
  | _ => none

/-- The text behind blanks and a comment. -/
def skipComment (cs : List Char) : List Char :=
  match skipBlanks cs with
  | '#' :: cs => cs.dropWhile isPrintable
  | cs => cs

/-- The text behind the end of an entry: blanks, a comment, and a line end or
the end of the text. -/
def entryEnd? (cs : List Char) : Option (List Char) :=
  match skipComment cs with
  | [] => some []
  | cs => lineEnd? cs

/-- The text behind blanks, comments and line ends. -/
def skipLayout : Nat → List Char → List Char
  | 0, cs => cs
  | fuel + 1, cs =>
    let cs := skipComment cs
    match lineEnd? cs with
    | some cs => skipLayout fuel cs
    | none => cs

/-- The text behind blanks and line ends. -/
def skipLines : Nat → List Char → List Char
  | 0, cs => cs
  | fuel + 1, cs =>
    match lineEnd? (skipBlanks cs) with
    | some cs => skipLines fuel cs
    | none => skipBlanks cs

end Toml

end TripleScript.Cli
