import TripleScript.Statement.Token
import TripleScript.Triple

/-!
# Statements

There are three statements: one that adds triples, one that removes triples,
and one that asks for the rows in which some triple patterns hold together.
What is here is what the text of a statement says; whether it makes sense,
say whether a projected variable occurs in a pattern, is settled when the
statement is compiled.
-/

namespace TripleScript

/-- What a statement does. -/
inductive Verb where
  /-- It adds triples. -/
  | insert
  /-- It removes triples. -/
  | delete
  /-- It asks for rows. -/
  | select
deriving DecidableEq, Inhabited, Repr

/-- The keyword a statement begins with. -/
def Verb.keyword : Verb → String
  | insert => "INSERT"
  | delete => "DELETE"
  | select => "SELECT"

/-- One position of a triple as a statement writes it. -/
inductive Term where
  /-- A node. -/
  | node (n : Node)
  /-- A named variable, without its question mark. -/
  | var (name : String)
  /-- Any node, without a name for it. -/
  | wildcard
deriving DecidableEq, Inhabited, Repr

/-- A triple as a statement writes it. -/
structure TriplePattern where
  /-- The subject. -/
  subject : Term
  /-- The predicate. -/
  predicate : Term
  /-- The object. -/
  object : Term
  /-- Where the triple stands, parentheses included. -/
  span : Span
deriving DecidableEq, Inhabited, Repr

/-- The three positions in order. -/
def TriplePattern.terms (p : TriplePattern) : List Term :=
  [p.subject, p.predicate, p.object]

/-- The columns a query asks for. -/
inductive Projection where
  /-- A column for every variable and every wildcard. -/
  | all
  /-- A column for each of these variables. -/
  | vars (names : List String)
deriving DecidableEq, Inhabited, Repr

/-- A term that names no node by itself. -/
inductive OpenTerm where
  /-- A named variable, without its question mark. -/
  | var (name : String)
  /-- Any node. -/
  | wildcard
deriving DecidableEq, Inhabited, Repr

/-- The open term as a statement writes it. -/
def OpenTerm.written : OpenTerm → String
  | var name => s!"?{name}"
  | wildcard => "?"

/-- The node a term names by itself, or the open term that it is. -/
def Term.ground : Term → Except OpenTerm Node
  | node n => .ok n
  | var name => .error (.var name)
  | wildcard => .error .wildcard

/-- The triple that a pattern names by itself, or its first open term. -/
def TriplePattern.ground (p : TriplePattern) : Except OpenTerm Triple := do
  .ok ⟨← p.subject.ground, ← p.predicate.ground, ← p.object.ground⟩

/-- A query. -/
structure SelectStatement where
  /-- Whether equal rows are given once. -/
  distinct : Bool
  /-- The columns. -/
  projection : Projection
  /-- The patterns that have to hold together. -/
  patterns : List TriplePattern
  /-- How many rows are wanted at most. -/
  limit : Option Nat
deriving DecidableEq, Inhabited, Repr

/-- A statement. -/
inductive Statement where
  /-- Adds triples. -/
  | insert (triples : List TriplePattern)
  /-- Removes triples. -/
  | delete (triples : List TriplePattern)
  /-- Asks for rows. -/
  | select (query : SelectStatement)
deriving DecidableEq, Inhabited, Repr

end TripleScript
