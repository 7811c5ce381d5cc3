import TripleScript.Query.Basic
import TripleScript.Statement.Parse

/-!
# From statements to commands

Compiling a statement replaces its variables by slots and refuses what could
not be answered. A variable gets a slot where it first occurs and keeps it;
every wildcard gets a slot of its own. The slots of a query are thus numbered
in the order of first appearance, and named after the variable, or `?_1`,
`?_2`, … for the wildcards. Names of variables do not begin with an
underscore, so the two kinds of names never meet.

`SlotTable.resolve` is the step for one term, `SlotTable.resolvePatterns` the
walk over all of them, and `Command.compile` the way from text to command.
-/

namespace TripleScript

/-- How many patterns a query may have. -/
def maxPatterns : Nat := 64

/-- How many triples a write may have. -/
def maxTriples : Nat := 10000

/-- Why a statement cannot be compiled. -/
inductive AnalysisError where
  /-- A triple to be written has an open term in it. -/
  | variableInData (verb : Verb) (term : String)
  /-- A variable whose name is kept for wildcards. -/
  | reservedVariable (name : String)
  /-- A column that no pattern fills. -/
  | unboundVariable (name : String)
  /-- A column asked for twice. -/
  | duplicateProjection (name : String)
  /-- All columns of a query that has none. -/
  | emptyProjection
  /-- More patterns than a query may have. -/
  | tooManyPatterns (count max : Nat)
  /-- More triples than a write may have. -/
  | tooManyTriples (count max : Nat)
deriving DecidableEq, Repr

namespace AnalysisError

/-- The name of the error in messages. -/
def code : AnalysisError → String
  | variableInData .. => "VariableInData"
  | reservedVariable _ => "ReservedVariable"
  | unboundVariable _ => "UnboundVariable"
  | duplicateProjection _ => "DuplicateProjection"
  | emptyProjection => "EmptyProjection"
  | tooManyPatterns .. => "TooManyPatterns"
  | tooManyTriples .. => "TooManyTriples"

/-- The wording of the error. -/
def text : AnalysisError → String
  | variableInData verb term =>
    s!"{verb.keyword} data must not contain variables (found {term})"
  | reservedVariable name => s!"variable ?{name} uses the reserved '_' prefix"
  | unboundVariable name =>
    s!"projected variable ?{name} is not bound by any pattern"
  | duplicateProjection name => s!"variable ?{name} projected more than once"
  | emptyProjection =>
    "SELECT * requires at least one variable in the WHERE clause"
  | tooManyPatterns count max => s!"query exceeds {max} patterns (got {count})"
  | tooManyTriples count max => s!"statement exceeds {max} triples (got {count})"

/-- The message for the user. -/
def message (e : AnalysisError) : String :=
  s!"[{e.code}] {e.text}"

end AnalysisError

/-- Why a text cannot be compiled. -/
inductive CompileError where
  /-- It is no statement. -/
  | malformed (e : SyntaxError)
  /-- It is a statement that makes no sense. -/
  | meaningless (e : AnalysisError)
deriving DecidableEq, Repr

/-- The message for the user. -/
def CompileError.message : CompileError → String
  | malformed e => e.message
  | meaningless e => e.message

/-! ## Slots -/

/-- Whether the name of a variable is kept for wildcards. -/
def isReserved (name : String) : Bool :=
  name.toList.head? == some '_'

/-- The slots given out so far. -/
structure SlotTable where
  /-- The name of each slot. -/
  names : List String := []
  /-- How many of them belong to wildcards. -/
  wildcards : Nat := 0
deriving DecidableEq, Inhabited, Repr

namespace SlotTable

/-- The slot of a variable, if it has one. -/
def find? (table : SlotTable) (name : String) : Option Nat :=
  table.names.idxOf? s!"?{name}"

/-- The table with one more slot. -/
def push (table : SlotTable) (name : String) : SlotTable :=
  { table with names := table.names ++ [name] }

/-- **The slot term of a term.** A variable seen before keeps its slot, a new
one and every wildcard take the next. -/
def resolve (table : SlotTable) : Term → Except AnalysisError (SlotTerm × SlotTable)
  | .node n => .ok (.const n, table)
  | .var name =>
    if isReserved name then .error (.reservedVariable name)
    else
      match table.find? name with
      | some i => .ok (.slot i, table)
      | none => .ok (.slot table.names.length, table.push s!"?{name}")
  | .wildcard =>
    let k := table.wildcards + 1
    .ok (.slot table.names.length, { table.push s!"?_{k}" with wildcards := k })

/-- The slot terms of a pattern, from left to right. -/
def resolvePattern (table : SlotTable) (p : TriplePattern) :
    Except AnalysisError (SlotPattern × SlotTable) := do
  let (subject, table) ← table.resolve p.subject
  let (predicate, table) ← table.resolve p.predicate
  let (object, table) ← table.resolve p.object
  .ok (⟨subject, predicate, object⟩, table)

/-- The slot terms of all patterns, in order. -/
def resolvePatterns (table : SlotTable) :
    List TriplePattern → Except AnalysisError (List SlotPattern × SlotTable)
  | [] => .ok ([], table)
  | p :: ps => do
    let (q, table) ← table.resolvePattern p
    let (qs, table) ← table.resolvePatterns ps
    .ok (q :: qs, table)

/-- The slots of the columns asked for by name, after those in `chosen`. -/
def columns (table : SlotTable) (chosen : List Nat) :
    List String → Except AnalysisError (List Nat)
  | [] => .ok chosen
  | name :: names =>
    if isReserved name then .error (.reservedVariable name)
    else
      match table.find? name with
      | none => .error (.unboundVariable name)
      | some i =>
        if chosen.contains i then .error (.duplicateProjection name)
        else table.columns (chosen ++ [i]) names

/-- The slots of the columns. -/
def project (table : SlotTable) : Projection → Except AnalysisError (List Nat)
  | .all =>
    if table.names.isEmpty then .error .emptyProjection
    else .ok (List.range table.names.length)
  | .vars names => table.columns [] names

end SlotTable

/-! ## Commands -/

/-- The triples of a write, which has to name nodes only. -/
def groundTriples (verb : Verb) (ps : List TriplePattern) :
    Except AnalysisError (List Triple) :=
  if ps.length > maxTriples then .error (.tooManyTriples ps.length maxTriples)
  else ps.mapM fun p => p.ground.mapError fun t => .variableInData verb t.written

/-- The compiled form of a query. -/
def SelectStatement.compile (q : SelectStatement) : Except AnalysisError Query := do
  if q.patterns.length > maxPatterns then
    .error (.tooManyPatterns q.patterns.length maxPatterns)
  else
    let (patterns, table) ← SlotTable.resolvePatterns {} q.patterns
    let projection ← table.project q.projection
    .ok ⟨table.names, patterns, projection, q.distinct, q.limit⟩

/-- The compiled form of a statement. -/
def Statement.compile : Statement → Except AnalysisError Command
  | .insert ps => (groundTriples .insert ps).map .insert
  | .delete ps => (groundTriples .delete ps).map .delete
  | .select q => q.compile.map .select

/-- **The command that a text writes.** -/
def Command.compile (text : String) : Except CompileError Command :=
  match Statement.parse text with
  | .error e => .error (.malformed e)
  | .ok s => s.compile.mapError .meaningless

end TripleScript
