import TripleScript.Node

/-!
# Tokens

A statement is a row of tokens. What a token says is its `Lexeme`; where it
stands in the text is its `Span`, counted in bytes. Keywords are words like
any other: whether a word is a keyword depends on its place in the statement,
so `insert` is still a node name inside a triple.
-/

namespace TripleScript

/-- A stretch of a text, in bytes. -/
structure Span where
  /-- Where it begins. -/
  start : Nat
  /-- Where it ends: the first byte after it. -/
  stop : Nat
deriving DecidableEq, Inhabited, Repr

/-- What a token says. -/
inductive Lexeme where
  /-- Bare characters: a keyword, a number or a node name. -/
  | word (text : String)
  /-- A quoted text, without its quotes and escapes. -/
  | quoted (text : String)
  /-- A named variable, without its question mark. -/
  | var (name : String)
  /-- A question mark on its own. -/
  | wildcard
  /-- An opening parenthesis. -/
  | openParen
  /-- A closing parenthesis. -/
  | closeParen
  /-- A comma. -/
  | comma
  /-- An asterisk. -/
  | star
deriving DecidableEq, Inhabited, Repr

namespace Lexeme

/-- Whether two texts agree up to the case of ASCII letters. -/
def sameLetters (s t : String) : Bool :=
  s.toList.map Char.toLower == t.toList.map Char.toLower

/-- Whether the lexeme is a given keyword, in either case. -/
def isKeyword (keyword : String) : Lexeme → Bool
  | word text => sameLetters text keyword
  | _ => false

/-- The lexeme as error messages name it. -/
def described : Lexeme → String
  | word text => s!"'{text}'"
  | quoted text => s!"string \"{text}\""
  | var name => s!"variable ?{name}"
  | wildcard => "'?'"
  | openParen => "'('"
  | closeParen => "')'"
  | comma => "','"
  | star => "'*'"

end Lexeme

/-- A lexeme and its place in the text. -/
structure Token where
  /-- What the token says. -/
  lexeme : Lexeme
  /-- Where it stands. -/
  span : Span
deriving DecidableEq, Inhabited, Repr

end TripleScript
