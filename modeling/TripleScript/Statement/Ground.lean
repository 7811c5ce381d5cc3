import TripleScript.Statement.Parse

/-!
# Ground triples

A seed file holds triples of nodes alone, written as in a statement. Reading
one is reading a triple and then refusing variables and wildcards in it, the
subject first.
-/

namespace TripleScript

/-- Why a text is no ground triple. -/
inductive GroundError where
  /-- It is no triple. -/
  | malformed (e : SyntaxError)
  /-- It has a term in it that names no node. -/
  | notGround (t : OpenTerm)
deriving DecidableEq, Repr

/-- The message for the user. -/
def GroundError.message : GroundError → String
  | malformed e => e.message
  | notGround (.var name) => s!"variable ?{name} not allowed in seed data"
  | notGround .wildcard => "wildcard ? not allowed in seed data"

/-- **The triple of nodes that a text writes.** -/
def Triple.parse (text : String) : Except GroundError Triple :=
  match TriplePattern.parse text with
  | .error e => .error (.malformed e)
  | .ok p => p.ground.mapError .notGround

end TripleScript
