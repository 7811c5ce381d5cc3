import TripleScript.Statement.Token

/-!
# Syntax errors

A text that is no statement is refused at the first place where it could no
longer become one. A `SyntaxError` says what is wrong there and where: the
cause is a `SyntaxFault`, and its wording is `SyntaxFault.reason`.
-/

namespace TripleScript

/-- What could have stood at a place where something else stands. -/
inductive Expectation where
  /-- The keyword that begins a statement. -/
  | statement
  /-- The first or next column of a query. -/
  | column
  /-- The keyword before the patterns of a query. -/
  | whereClause
  /-- The beginning of a triple. -/
  | openParen
  /-- The next position of a triple. -/
  | comma
  /-- The end of a triple. -/
  | closeParen
  /-- A position of a triple. -/
  | term
  /-- Nothing more. -/
  | nothing
deriving DecidableEq, Repr

/-- The expectation as error messages name it. -/
def Expectation.described : Expectation → String
  | statement => "INSERT, DELETE or SELECT"
  | column => "a variable such as ?x or *"
  | whereClause => "WHERE"
  | openParen => "'('"
  | comma => "','"
  | closeParen => "')'"
  | term => "a node, variable or ?"
  | nothing => "end of statement"

/-- What can be wrong at a place in a statement. -/
inductive SyntaxFault where
  /-- A character that begins no token. -/
  | unexpectedCharacter (c : Char)
  /-- A backslash before a character that is neither a quote nor a backslash. -/
  | unsupportedEscape (c : Char)
  /-- A quoted text without its closing quote. -/
  | unterminated
  /-- A token, or the end of the text if there is none, in place of another. -/
  | unexpected (wanted : Expectation) (found : Option Lexeme)
  /-- No number after the keyword that announces one. -/
  | missingRowCount
  /-- A token that is no row count, or one too large. -/
  | invalidRowCount (found : Lexeme)
deriving DecidableEq, Repr

/-- The wording of a fault. -/
def SyntaxFault.reason : SyntaxFault → String
  | unexpectedCharacter c => s!"unexpected character '{c}'"
  | unsupportedEscape c => s!"unsupported escape '\\{c}'"
  | unterminated => "unterminated string literal"
  | unexpected wanted found =>
    let seen := (found.map Lexeme.described).getD "end of statement"
    s!"expected {wanted.described}, found {seen}"
  | missingRowCount => "expected a row count after LIMIT"
  | invalidRowCount found =>
    s!"LIMIT expects a non-negative integer, found {found.described}"

/-- A reason with the place it applies to; columns count bytes from one. -/
def Span.report (span : Span) (reason : String) : String :=
  s!"syntax error at column {span.start + 1}: {reason}"

/-- Why and where a text is no statement. -/
structure SyntaxError where
  /-- What is wrong. -/
  fault : SyntaxFault
  /-- The place. -/
  span : Span
deriving DecidableEq, Repr

/-- The message for the user. -/
def SyntaxError.message (e : SyntaxError) : String :=
  e.span.report e.fault.reason

end TripleScript
