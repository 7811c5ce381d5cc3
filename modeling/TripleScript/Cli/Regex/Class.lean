import TripleScript.Cli.Regex.Basic

/-!
# Classes in brackets

A class lists characters, ranges of characters, named classes and classes
within it, and operators between them. Behind the opening bracket, and behind
the caret that negates the class, minus signs stand for themselves, and so
does a closing bracket that comes first; a class is never empty.

What is kept of a class is how deep classes are nested in it, because an
expression has a limit for that. A row of items and an operator each count
as one level more.
-/

namespace TripleScript.Cli.Regex

/-- The names of the classes that ASCII has. -/
def asciiClassNames : List String :=
  ["alnum", "alpha", "ascii", "blank", "cntrl", "digit", "graph", "lower", "print", "punct",
    "space", "upper", "word", "xdigit"]

/-- Whether a named class is negated, and the text behind it, from behind its
opening bracket. -/
def asciiClass? (cs : List Char) : Option (Bool × List Char) :=
  let named (negated : Bool) (cs : List Char) : Option (Bool × List Char) :=
    let name := String.ofList (cs.takeWhile (· != ':'))
    match cs.dropWhile (· != ':') with
    | ':' :: ']' :: rest => if asciiClassNames.contains name then some (negated, rest) else none
    | _ => none
  match cs with
  | ':' :: '^' :: cs => named true cs
  | ':' :: cs => named false cs
  | _ => none

/-- A class that has been opened. -/
structure OpenClass where
  /-- Whether it is negated. -/
  negated : Bool
  /-- Whether only minus signs have been read. -/
  fresh : Bool := true
  /-- How many items there are since the latest operator. -/
  count : Nat := 0
  /-- How deep they are. -/
  depth : Nat := 0
  /-- How deep everything before the latest operator is. -/
  before : Option Nat := none
deriving DecidableEq, Inhabited, Repr

namespace OpenClass

/-- A class from behind its opening bracket. -/
def begin (flags : Flags) (cs : List Char) : OpenClass × List Char :=
  match flags.skip cs with
  | '^' :: cs => ({ negated := true }, cs)
  | cs => ({ negated := false }, cs)

/-- The class with one more item. -/
def add (k : OpenClass) (depth : Nat) (fresh : Bool := false) : OpenClass :=
  { k with fresh, count := k.count + 1, depth := max k.depth depth }

/-- How deep the class is, as far as it has been read. -/
def level (k : OpenClass) : Nat :=
  let row := if k.count ≤ 1 then k.depth else k.depth + 1
  match k.before with
  | none => row
  | some before => max before row + 1

/-- The class with an operator behind what has been read. -/
def operate (k : OpenClass) : OpenClass :=
  { negated := k.negated, fresh := false, before := some k.level }

end OpenClass

/-- One end of a range, or an item of its own. -/
def classPrimitive? (flags : Flags) : List Char → Option (Primitive × List Char)
  | [] => none
  | '\\' :: cs => escape? flags cs
  | c :: cs => some (.char c false, cs)

/-- What follows a minus sign, behind blanks and the sign of a comment. -/
def beyondMinus (flags : Flags) (cs : List Char) : Option Char :=
  if flags.verbose then
    match cs.dropWhile Text.isBlank with
    | '#' :: cs => (cs.dropWhile Text.isBlank).head?
    | cs => cs.head?
  else cs.head?

/-- The text behind a character or a range. A minus sign before another one or
before a closing bracket makes no range. -/
def classItem? (flags : Flags) (cs : List Char) : Option (List Char) := do
  let (first, cs) ← classPrimitive? flags cs
  let single (cs : List Char) : Option (List Char) :=
    match first with
    | .char c _ => if flags.allowsWithin c then some cs else none
    | .named negated => if flags.unicode || negated then none else some cs
    | .edge _ => none
  match flags.skip cs with
  | '-' :: rest =>
    if beyondMinus flags rest = some ']' ∨ beyondMinus flags rest = some '-' then
      single ('-' :: rest)
    else
      match first, ← classPrimitive? flags (flags.skip rest) with
      | .char low _, (.char high _, cs) =>
        if low ≤ high && flags.allowsWithin low && flags.allowsWithin high then some cs
        else none
      | _, _ => none
  | cs => single cs

/-- How deep a class is and the text behind it; `outer` are the classes around
the one that is being read. -/
def classFrom (flags : Flags) :
    Nat → (outer : List OpenClass) → OpenClass → List Char → Option (Nat × List Char)
  | 0, _, _, _ => none
  | fuel + 1, outer, k, cs =>
    match flags.skip cs with
    | [] => none
    | '-' :: '-' :: cs =>
      if k.fresh then
        if flags.needsCases then none else classFrom flags fuel outer (k.add 0 true) ('-' :: cs)
      else classFrom flags fuel outer k.operate cs
    | '&' :: '&' :: cs => classFrom flags fuel outer k.operate cs
    | '~' :: '~' :: cs => classFrom flags fuel outer k.operate cs
    | '[' :: cs =>
      match asciiClass? cs with
      | some (negated, cs) =>
        if flags.needsCases || (negated && !flags.unicode) then none
        else classFrom flags fuel outer (k.add 0) cs
      | none =>
        let (inner, cs) := OpenClass.begin flags cs
        classFrom flags fuel ({ k with fresh := false } :: outer) inner cs
    | c :: cs =>
      if c = '-' ∧ k.fresh then
        if flags.needsCases then none else classFrom flags fuel outer (k.add 0 true) cs
      else if c = ']' ∧ !(k.fresh && k.count = 0) then
        if k.negated && !flags.unicode then none
        else
          match outer with
          | [] => some (k.level + 1, cs)
          | around :: outer => classFrom flags fuel outer (around.add (k.level + 1)) cs
      else if c = ']' then
        if flags.needsCases then none else classFrom flags fuel outer (k.add 0) cs
      else
        match classItem? flags (c :: cs) with
        | none => none
        | some cs => classFrom flags fuel outer (k.add 0) cs

/-- **How deep a class is**, and the text behind it, from behind its opening
bracket. -/
def class? (flags : Flags) (cs : List Char) : Option (Nat × List Char) :=
  let (k, cs) := OpenClass.begin flags cs
  classFrom flags (cs.length + 1) [] k cs

end TripleScript.Cli.Regex
