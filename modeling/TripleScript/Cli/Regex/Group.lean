import TripleScript.Cli.Regex.Basic
import TripleScript.Text.Alphanumeric

/-!
# Groups

Behind an opening parenthesis there may be a name for what the group matches,
or flags for the parts in the group. Flags without a group hold up to the end
of the group around them.
-/

namespace TripleScript.Cli.Regex

/-- The letters of the flags. -/
def flagLetters : List Char :=
  ['i', 'm', 's', 'U', 'u', 'R', 'x']

/-- The flags after a row of letters, the sign that ends the row, and the text
behind it. A flag is given once; a minus sign takes away the flags behind it,
and there have to be some. `given` are the flags read, and `last` is what was
read last. -/
def flagsFrom (negated : Bool) (given : List Char) (last : Option Char) (flags : Flags) :
    List Char → Option (Flags × Char × List Char)
  | [] => none
  | c :: cs =>
    if c = ':' ∨ c = ')' then
      if last = some '-' ∨ (c = ')' ∧ given.isEmpty) then none else some (flags, c, cs)
    else if c = '-' then
      if negated then none else flagsFrom true given (some c) flags cs
    else if flagLetters.contains c && !given.contains c then
      flagsFrom negated (c :: given) (some c) (flags.set c (!negated)) cs
    else none

/-- Whether a text may be the name of a group. -/
def isGroupName : List Char → Bool
  | [] => false
  | c :: cs =>
    (c == '_' || Text.isAlphabetic c)
      && cs.all fun c => c == '_' || c == '.' || c == '[' || c == ']' || Text.isAlphanumeric c

/-- How a parenthesis is opened. -/
inductive Opening where
  /-- For a group with its flags, and with the name that it may have. -/
  | group (flags : Flags) (name : Option (List Char))
  /-- For flags alone. -/
  | flags (flags : Flags)
deriving DecidableEq, Inhabited, Repr

/-- A group with a name, from behind the angle bracket before the name. -/
def namedGroup? (flags : Flags) (cs : List Char) : Option (Opening × List Char) :=
  let name := cs.takeWhile (· != '>')
  match cs.dropWhile (· != '>') with
  | [] => none
  | _ :: rest => if isGroupName name then some (.group flags name, rest) else none

/-- How a parenthesis is opened, and the text behind that. -/
def opening? (flags : Flags) (cs : List Char) : Option (Opening × List Char) :=
  match flags.skip cs with
  | '?' :: 'P' :: '<' :: cs => namedGroup? flags cs
  | '?' :: '<' :: cs => namedGroup? flags cs
  | '?' :: cs =>
    (flagsFrom false [] none flags cs).map fun (flags, c, cs) =>
      (if c = ')' then .flags flags else .group flags none, cs)
  | cs => some (.group flags none, cs)

end TripleScript.Cli.Regex
