import TripleScript.Text.Blank
import TripleScript.Text.Hex

/-!
# Parts of regular expressions

A log filter gives the value of a field as a regular expression. What is
decided here and in the modules beside this one is which texts are regular
expressions that can be matched; nothing is ever matched.

Which parts an expression may have depends on its `Flags`. Matching knows the
characters of Unicode but none of their properties: so as long as characters
are matched, there are no classes of letters or digits, no word boundaries,
and no letters in either case. Once bytes are matched, only what belongs to
ASCII may be picked out.

A `Primitive` is what one character or one escape stands for.
-/

namespace TripleScript.Cli.Regex

/-- The flags that a part is read under. -/
structure Flags where
  /-- Whether letters match in either case. -/
  ignoreCase : Bool := false
  /-- Whether characters are matched, and not bytes. -/
  unicode : Bool := true
  /-- Whether blanks and comments may stand between the parts. -/
  verbose : Bool := false
deriving DecidableEq, Inhabited, Repr

/-- The flags with the one of a letter given a value; other letters stand for
flags that do not matter for reading. -/
def Flags.set (flags : Flags) (letter : Char) (value : Bool) : Flags :=
  match letter with
  | 'i' => { flags with ignoreCase := value }
  | 'u' => { flags with unicode := value }
  | 'x' => { flags with verbose := value }
  | _ => flags

/-- Whether matching would need to know the two cases of every letter. -/
def Flags.needsCases (flags : Flags) : Bool :=
  flags.ignoreCase && flags.unicode

/-- The text behind blanks and comments; a comment goes from a number sign to
the end of the line. -/
def skipRemarks : (comment : Bool) → List Char → List Char
  | _, [] => []
  | false, c :: cs =>
    if Text.isBlank c then skipRemarks false cs
    else if c = '#' then skipRemarks true cs
    else c :: cs
  | true, c :: cs => skipRemarks (c ≠ '\n') cs

/-- The text behind whatever the flags let stand between two parts. -/
def Flags.skip (flags : Flags) (cs : List Char) : List Char :=
  if flags.verbose then skipRemarks false cs else cs

/-- What one character or one escape stands for. -/
inductive Primitive where
  /-- A character, which may have been given by the two digits of a byte. -/
  | char (c : Char) (byte : Bool)
  /-- A class of digits, blanks or letters, or all other characters. -/
  | named (negated : Bool)
  /-- A place: the beginning or the end of the text, or the boundary of a
  word. -/
  | edge (word : Bool)
deriving DecidableEq, Inhabited, Repr

/-- The character with a number of `count` hexadecimal digits. -/
def hexChar? (flags : Flags) (count : Nat) (read : List Char) (cs : List Char) :
    Option (Char × List Char) :=
  match count with
  | 0 => (Text.charOfHex? read.reverse).map (·, cs)
  | count + 1 =>
    match flags.skip cs with
    | [] => none
    | c :: cs => hexChar? flags count (c :: read) cs

/-- What an escape stands for, from behind the backslash. Signs stand for
themselves, and letters without a meaning are refused. -/
def escape? (flags : Flags) : List Char → Option (Primitive × List Char)
  | [] => none
  | c :: cs =>
    match c with
    | 'x' => (hexChar? flags 2 [] cs).map fun (c, cs) => (.char c true, cs)
    | 'u' => (hexChar? flags 4 [] cs).map fun (c, cs) => (.char c false, cs)
    | 'U' => (hexChar? flags 8 [] cs).map fun (c, cs) => (.char c false, cs)
    | 'a' => some (.char '\x07' false, cs)
    | 'f' => some (.char '\x0c' false, cs)
    | 'n' => some (.char '\n' false, cs)
    | 'r' => some (.char '\r' false, cs)
    | 't' => some (.char '\t' false, cs)
    | 'v' => some (.char '\x0b' false, cs)
    | 'd' | 's' | 'w' => some (.named false, cs)
    | 'D' | 'S' | 'W' => some (.named true, cs)
    | 'A' | 'z' => some (.edge false, cs)
    | 'b' | 'B' | '<' | '>' => some (.edge true, cs)
    | c => if c.isAlphanum || 0x80 ≤ c.toNat then none else some (.char c false, cs)

/-- Whether a primitive may stand outside of brackets. -/
def Flags.allows (flags : Flags) : Primitive → Bool
  | .char c byte => !flags.needsCases && (flags.unicode || !byte || c.toNat < 0x80)
  | .named negated => !flags.unicode && !negated
  | .edge word => !(flags.unicode && word)

/-- Whether a character may be picked out within brackets. -/
def Flags.allowsWithin (flags : Flags) (c : Char) : Bool :=
  !flags.needsCases && (flags.unicode || c.toNat < 0x80)

end TripleScript.Cli.Regex
