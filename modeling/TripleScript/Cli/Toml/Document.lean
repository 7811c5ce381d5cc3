import TripleScript.Cli.Toml.Moment
import TripleScript.Cli.Toml.Number
import TripleScript.Cli.Toml.Text

/-!
# TOML documents

A document is a row of entries, each on lines of its own: a header names the
table that the entries behind it belong to, and a pair gives a key its value.
A key has parts with points between them, and so it reaches into a table
within a table.

The keys of an inline table must not be in each other's way: no key may be
another one, or go on where another one ends (`areApart`).

Only documents are read here from which a configuration can be made. So there
are no arrays of tables, and which tables an entry may reach is left to the
configuration.
-/

namespace TripleScript.Cli.Toml

/-! ## Keys -/

/-- Whether a character may stand in a key without quotes. -/
def inKey (c : Char) : Bool :=
  c.isAlphanum || c == '_' || c == '-'

/-- One part of a key. -/
def keyPart? (cs : List Char) : Option (String × List Char) :=
  match cs.takeWhile inKey with
  | [] => line? cs
  | part => some (String.ofList part, cs.dropWhile inKey)

/-- The parts of a key with points between them. -/
def keyParts? : Nat → List Char → Option (List String × List Char)
  | 0, _ => none
  | fuel + 1, cs => do
    let (part, cs) ← keyPart? (skipBlanks cs)
    match skipBlanks cs with
    | '.' :: cs =>
      let (parts, cs) ← keyParts? fuel cs
      return (part :: parts, cs)
    | cs => return ([part], cs)

/-- How many parts a key may have, and how many arrays and inline tables may
stand within each other. -/
def maxDepth : Nat := 79

/-- A key in parts. -/
def key? (fuel : Nat) (cs : List Char) : Option (List String × List Char) := do
  let (parts, cs) ← keyParts? fuel cs
  if parts.length ≤ maxDepth then some (parts, cs) else none

/-- A key and the equals sign behind it. -/
def keyEquals? (fuel : Nat) (cs : List Char) : Option (List String × List Char) := do
  let (key, cs) ← key? fuel cs
  match cs with
  | '=' :: cs => return (key, skipBlanks cs)
  | _ => none

/-- Whether two keys lead to different places, neither of them within the
other. -/
def areApart (key other : List String) : Bool :=
  !key.isPrefixOf other && !other.isPrefixOf key

/-- Whether all keys lead to different places. -/
def haveOwnPlaces : List (List String) → Bool
  | [] => true
  | key :: keys => keys.all (areApart key) && haveOwnPlaces keys

/-! ## Values -/

/-- Whether a character may stand in a value without quotes. -/
def inWord (c : Char) : Bool :=
  c.isAlphanum || c == '_' || c == '+' || c == '-' || c == '.' || c == ':'

/-- The value that a word is. -/
def ofWord? (word : List Char) : Option Toml :=
  match integer? word with
  | some i => some (integer i)
  | none =>
    if word == "true".toList || word == "false".toList || isFloat word || isMoment word then
      some other
    else none

/-- A value that is a word. A date may have a time behind it, with a blank
between them. -/
def word? (cs : List Char) : Option (Toml × List Char) :=
  let word := cs.takeWhile inWord
  let rest := cs.dropWhile inWord
  let time := (rest.drop 1).takeWhile inWord
  if isDate word && rest.head? == some ' ' && !time.isEmpty then
    if isZonedTime time then some (other, (rest.drop 1).dropWhile inWord) else none
  else (ofWord? word).map (·, rest)

mutual

/-- A value that holds at most `depth` arrays and inline tables within each
other. -/
def value? : (depth fuel : Nat) → List Char → Option (Toml × List Char)
  | _, 0, _ => none
  | depth, fuel + 1, cs =>
    match depth, cs with
    | 0, '[' :: _ => none
    | 0, '\x7b' :: _ => none
    | depth + 1, '[' :: cs =>
      (items? depth fuel (skipLayout fuel cs)).map fun (js, cs) => (list js, cs)
    | depth + 1, '\x7b' :: cs =>
      match skipBlanks cs with
      | '\x7d' :: cs => some (table [], cs)
      | cs =>
        match pairs? depth fuel cs with
        | none => none
        | some (ps, cs) => if haveOwnPlaces (ps.map (·.1)) then some (table ps, cs) else none
    | _, cs =>
      match string? cs with
      | some (s, cs) => some (text s, cs)
      | none => word? cs

/-- The items of an array up to its closing bracket. -/
def items? : (depth fuel : Nat) → List Char → Option (List Toml × List Char)
  | _, 0, _ => none
  | depth, fuel + 1, cs =>
    match cs with
    | ']' :: cs => some ([], cs)
    | cs =>
      match value? depth fuel cs with
      | none => none
      | some (item, cs) =>
        match skipLayout fuel cs with
        | ',' :: cs =>
          (items? depth fuel (skipLayout fuel cs)).map fun (js, cs) => (item :: js, cs)
        | ']' :: cs => some ([item], cs)
        | _ => none

/-- The pairs of an inline table up to its closing brace. -/
def pairs? : (depth fuel : Nat) → List Char → Option (List (List String × Toml) × List Char)
  | _, 0, _ => none
  | depth, fuel + 1, cs =>
    match keyEquals? fuel cs with
    | none => none
    | some (key, cs) =>
      match value? depth fuel cs with
      | none => none
      | some (value, cs) =>
        match skipBlanks cs with
        | ',' :: cs => (pairs? depth fuel cs).map fun (ps, cs) => ((key, value) :: ps, cs)
        | '\x7d' :: cs => some ([(key, value)], cs)
        | _ => none

end

/-! ## Documents -/

/-- One entry and the text behind its line. -/
def entry? (fuel : Nat) (cs : List Char) : Option (Entry × List Char) := do
  match cs with
  | '[' :: cs =>
    let (key, cs) ← key? fuel cs
    match cs with
    | ']' :: cs => return (.header key, ← entryEnd? cs)
    | _ => none
  | cs =>
    let (key, cs) ← keyEquals? fuel cs
    let (value, cs) ← value? maxDepth fuel cs
    return (.pair key value, ← entryEnd? cs)

/-- The entries of a document; every entry takes characters, so their number
is bounded by the length of the text. -/
def entriesFrom : Nat → List Char → Option (List Entry)
  | 0, _ => none
  | fuel + 1, cs =>
    match skipLayout (fuel + 1) cs with
    | [] => some []
    | cs => do
      let (entry, cs) ← entry? (fuel + 1) (skipBlanks cs)
      return entry :: (← entriesFrom fuel cs)

/-- **The entries of a document**, which may begin with a byte order mark. -/
def entries? (document : String) : Option (List Entry) :=
  let cs := match document.toList with
    | '\uFEFF' :: cs => cs
    | cs => cs
  entriesFrom (cs.length + 1) cs

end TripleScript.Cli.Toml
