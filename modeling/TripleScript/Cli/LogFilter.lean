import TripleScript.Cli.Regex.Expression
import TripleScript.Statement.Token
import TripleScript.Text.Alphanumeric
import TripleScript.Text.Blank
import TripleScript.Text.Bytes
import TripleScript.Text.Numeral
import TripleScript.Text.Parts

/-!
# Log filters

A log filter is a row of directives with commas between them. A directive is
a level, or a target with an optional span, optional fields of the span and an
optional level, written `target[span{field=value}]=level`. The program
writes no log of its own that anybody sees, but it refuses to start with a
filter that makes no sense.

A directive is read character by character; `State` says what was read last.
A word in the place of a target is a target if it is no level. The value of
a field is a number or a regular expression.

Blanks around a directive do not count when it is read. But the places of
fields and levels, which are then counted from its first character, are
looked up in the directive with its blanks.
-/

namespace TripleScript.Cli.LogFilter

/-! ## Levels -/

/-- The names of the levels. -/
def levelNames : List String :=
  ["off", "error", "warn", "info", "debug", "trace"]

/-- Whether a text is a level: one of the names in either case, or a number
from zero to five, perhaps with a plus sign. Nothing at all is a level too. -/
def isLevel (cs : List Char) : Bool :=
  let number := match cs with
    | '+' :: cs => Text.numeral? cs
    | cs => Text.numeral? cs
  cs.isEmpty || levelNames.any (Lexeme.sameLetters · (String.ofList cs))
    || number.any (· ≤ 5)

/-! ## Fields -/

/-- A text without the sign at its beginning. -/
def dropSign : List Char → List Char
  | '+' :: cs => cs
  | '-' :: cs => cs
  | cs => cs

/-- The names of numbers that have no digits. -/
def numberNames : List String :=
  ["inf", "infinity", "nan"]

/-- Whether a text is a number: a name in either case, or digits with perhaps a
point among them and an exponent behind them, and with a sign if one likes. -/
def isNumber (cs : List Char) : Bool :=
  let cs := dropSign cs
  let whole := cs.takeWhile Char.isDigit
  let (fraction, rest) := match cs.dropWhile Char.isDigit with
    | '.' :: cs => (cs.takeWhile Char.isDigit, cs.dropWhile Char.isDigit)
    | cs => ([], cs)
  numberNames.any (Lexeme.sameLetters · (String.ofList cs))
    || !(whole ++ fraction).isEmpty && match rest with
      | [] => true
      | c :: cs => (c == 'e' || c == 'E') && (Text.numeral? (dropSign cs)).isSome

/-- Whether a text is a field: a name, perhaps with a value behind an equals
sign. Another equals sign ends the value. -/
def isField (cs : List Char) : Bool :=
  match Text.parts '=' cs with
  | _ :: value :: _ => isNumber value || Regex.isExpression value
  | _ => !cs.isEmpty

/-! ## Directives -/

/-- What was read last of a directive. -/
inductive State where
  /-- Nothing. -/
  | start
  /-- A part of a level or a target. -/
  | word
  /-- A part of a span. -/
  | span
  /-- A part of a field, and the place where the field begins. -/
  | field (place : Nat)
  /-- The end of the fields. -/
  | fields
  /-- The end of the span. -/
  | target
  /-- A part of a level behind an equals sign, and the place where it
  begins. -/
  | level (place : Nat)
deriving DecidableEq, Inhabited, Repr

/-- Whether a directive may begin with a character. -/
def begins (c : Char) : Bool :=
  c == '-' || c == ':' || c == '_' || Text.isAlphanumeric c

/-- The state after one more character, which stands at a place; `within` is
the directive with its blanks. -/
def State.next (within : List Char) (place : Nat) : State → Char → Option State
  | start, '[' => some span
  | start, c => if begins c then some word else none
  | word, '=' => some (level (place + 1))
  | word, '[' => some span
  | word, _ => some word
  | span, ']' => some target
  | span, '\x7b' => some (field (place + 1))
  | span, _ => some span
  | field first, '\x7d' =>
    if (Text.slice? first place within).any isField then some fields else none
  | field first, _ => some (field first)
  | fields, ']' => some target
  | fields, _ => none
  | target, '=' => some (level (place + 1))
  | target, _ => none
  | level first, _ => some (level first)

/-- The state after a text that begins at a place. -/
def State.after (within : List Char) (place : Nat) (state : State) :
    List Char → Option State
  | [] => some state
  | c :: cs =>
    match state.next within place c with
    | none => none
    | some state => state.after within (place + c.utf8Size) cs

/-- Whether a directive may end in a state. -/
def State.isFinal (within : List Char) : State → Bool
  | word => true
  | target => true
  | level first => (Text.dropBytes? first within).any isLevel
  | _ => false

/-- Whether a text is a directive. -/
def isDirective (cs : List Char) : Bool :=
  (State.start.after cs 0 (Text.trim cs)).any (State.isFinal cs)

/-- **Whether a text is a log filter.** Empty parts do not count. -/
def isValid (filter : String) : Bool :=
  (Text.parts ',' filter.toList).all fun part => part.isEmpty || isDirective part

end TripleScript.Cli.LogFilter
