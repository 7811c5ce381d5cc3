import TripleScript.Cli.Toml.Basic
import TripleScript.Text.Hex

/-!
# TOML strings

There are four kinds of strings: on one line or on several, between quotes or
between apostrophes. Between quotes a backslash begins an escape, or ends a
line that goes on behind the blanks and line ends that follow; between
apostrophes every character stands for itself. A string of several lines
loses a line end right at its beginning, and the other line ends in it count
as line feeds.
-/

namespace TripleScript.Cli.Toml

/-- The character that an escape stands for, from behind the backslash. -/
def escape? : List Char → Option (Char × List Char)
  | 'b' :: cs => some ('\x08', cs)
  | 't' :: cs => some ('\t', cs)
  | 'n' :: cs => some ('\n', cs)
  | 'f' :: cs => some ('\x0c', cs)
  | 'r' :: cs => some ('\r', cs)
  | '"' :: cs => some ('"', cs)
  | '\\' :: cs => some ('\\', cs)
  | 'u' :: cs =>
    if cs.length < 4 then none else (Text.charOfHex? (cs.take 4)).map (·, cs.drop 4)
  | 'U' :: cs =>
    if cs.length < 8 then none else (Text.charOfHex? (cs.take 8)).map (·, cs.drop 8)
  | _ => none

/-- The rest of a string between quotes; `read` has been read, last character
first. -/
def basicFrom : Nat → List Char → List Char → Option (String × List Char)
  | 0, _, _ => none
  | fuel + 1, read, cs =>
    match cs with
    | [] => none
    | '"' :: cs => some (String.ofList read.reverse, cs)
    | '\\' :: cs =>
      match escape? cs with
      | some (c, cs) => basicFrom fuel (c :: read) cs
      | none => none
    | c :: cs => if isPrintable c then basicFrom fuel (c :: read) cs else none

/-- A string between apostrophes, from behind the first. -/
def literal? (cs : List Char) : Option (String × List Char) :=
  match cs.dropWhile fun c => isPrintable c && c != '\'' with
  | '\'' :: rest =>
    some (String.ofList (cs.takeWhile fun c => isPrintable c && c != '\''), rest)
  | _ => none

/-- The end of a string of several lines: three quotes, with at most two more
in front of them that belong to the string. -/
def closing? (quote : Char) (cs : List Char) : Option (List Char × List Char) :=
  let count := (cs.takeWhile (· == quote)).length
  if count < 3 then none
  else some (List.replicate (min count 5 - 3) quote, cs.drop (min count 5))

/-- The text behind a backslash that ends a line: the line end and all blanks
and line ends that follow. -/
def continuation? (cs : List Char) : Option (List Char) :=
  (lineEnd? (skipBlanks cs)).map fun rest => skipLines rest.length rest

/-- The rest of a string of several lines; only between quotes are there
escapes. -/
def multilineFrom (quote : Char) : Nat → List Char → List Char → Option (String × List Char)
  | 0, _, _ => none
  | fuel + 1, read, cs =>
    match closing? quote cs, lineEnd? cs, cs with
    | some (quotes, cs), _, _ => some (String.ofList (read.reverse ++ quotes), cs)
    | none, some cs, _ => multilineFrom quote fuel ('\n' :: read) cs
    | none, none, [] => none
    | none, none, c :: cs =>
      if c = '\\' ∧ quote = '"' then
        match continuation? cs, escape? cs with
        | some cs, _ => multilineFrom quote fuel read cs
        | none, some (c, cs) => multilineFrom quote fuel (c :: read) cs
        | none, none => none
      else if isPrintable c then multilineFrom quote fuel (c :: read) cs
      else none

/-- The text behind a line end right at its beginning, or the text itself. -/
def skipFirstLineEnd (cs : List Char) : List Char :=
  (lineEnd? cs).getD cs

/-- A string on one line. -/
def line? : List Char → Option (String × List Char)
  | '"' :: cs => basicFrom (cs.length + 1) [] cs
  | '\'' :: cs => literal? cs
  | _ => none

/-- A string of any kind. -/
def string? : List Char → Option (String × List Char)
  | '"' :: '"' :: '"' :: cs => multilineFrom '"' (cs.length + 1) [] (skipFirstLineEnd cs)
  | '\'' :: '\'' :: '\'' :: cs =>
    multilineFrom '\'' (cs.length + 1) [] (skipFirstLineEnd cs)
  | cs => line? cs

end TripleScript.Cli.Toml
