/-!
# Compact JSON

Machine-readable reports are JSON without blanks between the tokens. Objects
keep the order of their fields. In strings, the quote, the backslash and the
control characters are escaped, with a letter where there is one and by
number otherwise; all other characters stand for themselves.
-/

namespace TripleScript.Text

/-- A JSON value. -/
inductive Json where
  /-- A string. -/
  | text (s : String)
  /-- A natural number. -/
  | natural (n : Nat)
  /-- A number given by its digits. -/
  | numeral (digits : String)
  /-- A truth value. -/
  | flag (b : Bool)
  /-- An array. -/
  | list (items : List Json)
  /-- An object. -/
  | object (fields : List (String × Json))

namespace Json

/-- A digit of a hexadecimal number. -/
def hexDigit (n : Nat) : Char :=
  Nat.digitChar n

/-- A character inside a string. -/
def escapeChar (c : Char) : List Char :=
  if c = '"' then ['\\', '"']
  else if c = '\\' then ['\\', '\\']
  else if c = '\x08' then ['\\', 'b']
  else if c = '\x0c' then ['\\', 'f']
  else if c = '\n' then ['\\', 'n']
  else if c = '\r' then ['\\', 'r']
  else if c = '\t' then ['\\', 't']
  else if c.toNat < 0x20 then
    ['\\', 'u', '0', '0', hexDigit (c.toNat / 16), hexDigit (c.toNat % 16)]
  else [c]

/-- A string with its quotes. -/
def quote (s : String) : String :=
  String.ofList ('"' :: s.toList.flatMap escapeChar ++ ['"'])

mutual

/-- **The compact form of a value.** -/
def render : Json → String
  | text s => quote s
  | natural n => toString n
  | numeral digits => digits
  | flag b => if b then "true" else "false"
  | list items => "[" ++ ",".intercalate (renderItems items) ++ "]"
  | object fields => "\x7b" ++ ",".intercalate (renderFields fields) ++ "\x7d"

/-- The compact forms of the items of an array. -/
def renderItems : List Json → List String
  | [] => []
  | j :: js => j.render :: renderItems js

/-- The compact forms of the fields of an object. -/
def renderFields : List (String × Json) → List String
  | [] => []
  | (key, j) :: fields => (quote key ++ ":" ++ j.render) :: renderFields fields

end

end Json

end TripleScript.Text
