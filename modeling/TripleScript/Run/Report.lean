import TripleScript.Run.Runner
import TripleScript.Text.Bytes
import TripleScript.Text.Json

/-!
# Reports

A run is reported in one of two forms. The plain form is for people: it
repeats each statement, shows its rows as a grid and closes with a line that
says what came of it. The other form is JSON, one object per line: one for
each statement and one for the summary.

A report writes a message piece by piece, and stops at the first piece that
the writer does not take. `Writer.put` is one piece, `Writer.putAll` the
pieces of a message. A writer may have room for a number of bytes only; it
takes of a piece what fits.
-/

namespace TripleScript

open Text (Json bytesOf floatText)

/-! ## Writers -/

/-- Where a report is written. -/
structure Writer where
  /-- How many more bytes it takes, if there is a limit. -/
  room : Option Nat := none
  /-- What it has taken of each piece, last piece first. -/
  taken : List (List UInt8) := []
deriving DecidableEq, Inhabited, Repr

namespace Writer

/-- The bytes that a writer has taken. -/
def written (w : Writer) : List UInt8 :=
  w.taken.reverse.flatten

/-- A new writer has taken nothing. -/
@[simp] theorem written_mk_nil (room : Option Nat) : written { room } = [] := rfl

/-- What is taken last comes last. -/
@[simp] theorem written_mk_cons (room : Option Nat) (bytes : List UInt8)
    (taken : List (List UInt8)) :
    written ⟨room, bytes :: taken⟩ = written ⟨room, taken⟩ ++ bytes := by
  simp [written]

/-- **A writer given a piece**, and whether it takes it whole. -/
def put (w : Writer) (piece : String) : Bool × Writer :=
  let bytes := bytesOf piece
  match w.room with
  | none => (true, { w with taken := bytes :: w.taken })
  | some room =>
    (bytes.length ≤ room,
      { room := some (room - bytes.length), taken := bytes.take room :: w.taken })

/-- A writer given some pieces up to the first that it does not take whole,
and whether it takes them all. -/
def putAll (w : Writer) : List String → Bool × Writer
  | [] => (true, w)
  | piece :: pieces =>
    let (taken, w) := w.put piece
    if taken then w.putAll pieces else (false, w)

end Writer

/-! ## The plain form -/

/-- The lines of a plain report that a terminal may colour. -/
inductive Marker where
  /-- A line that announces a file or a statement. -/
  | heading
  /-- The last line of a statement that succeeded. -/
  | success
  /-- The last line of a statement that failed. -/
  | failure
  /-- The last line of a statement that was not attempted. -/
  | skipped
deriving DecidableEq, Inhabited, Repr

/-- What is made of the marked lines. -/
abbrev Decoration := Marker → String → String

namespace Plain

/-- The decoration that leaves lines alone. -/
def undecorated : Decoration := fun _ line => line

/-- The pieces of a table: none if it has no rows. -/
def tablePieces (t : Table) : List String :=
  if t.rows.isEmpty then [] else t.gridLines

/-- The pieces that say what came of a statement. -/
def statusPieces (decorate : Decoration) : Status → List String
  | .succeeded table =>
    ["Result:\n"] ++ tablePieces table ++ [decorate .success "OK", "\n"]
  | .failed failure =>
    [decorate .failure s!"[FAIL] {failure.stage.name}: {failure.message}", "\n"]
  | .notAttempted =>
    [decorate .skipped "[SKIPPED] statement not attempted (run cancelled)", "\n"]

/-- **The pieces of a message** in the plain form. -/
def pieces (decorate : Decoration) : Message → List String
  | .opened script =>
    [decorate .heading s!"Processing file {script.source}", "\n", "\n"]
  | .started _ => []
  | .recorded r =>
    [decorate .heading s!"Processing statement ({r.position}/{r.total}):", "\n",
      r.text, "\n", "\n"] ++ statusPieces decorate r.status ++ ["\n"]
  | .finished _ => []

end Plain

/-! ## The JSON form -/

/-- A triple as JSON. -/
def Triple.toJson (t : Triple) : Json :=
  .object [("subject", .text t.subject.text), ("predicate", .text t.predicate.text),
    ("object", .text t.object.text)]

/-- A table as JSON. -/
def Table.toJson (t : Table) : Json :=
  .object [("columns", .list (t.columns.map Json.text)),
    ("rows", .list (t.rows.map fun row => .list (row.map fun n => .text n.text)))]

/-- The fields that say what came of a statement. -/
def Status.fields : Status → List (String × Json)
  | .succeeded table => [("status", .text "succeeded"), ("table", table.toJson)]
  | .failed failure =>
    [("status", .text "failed"),
      ("failure", .object [("stage", .text failure.stage.name),
        ("message", .text failure.message)])]
  | .notAttempted => [("status", .text "not_attempted")]

/-- The report on a statement as JSON. -/
def StatementReport.toJson (r : StatementReport) : Json :=
  .object ([("kind", .text "statement"), ("position", .natural r.position),
    ("total", .natural r.total), ("text", .text r.text)] ++ r.status.fields)

/-- The summary of a run as JSON. -/
def RunSummary.toJson (r : RunSummary) : Json :=
  .object [("kind", .text "summary"), ("source", .text r.source),
    ("total", .natural r.total), ("succeeded", .natural r.succeeded),
    ("failed", .natural r.failed), ("not_attempted", .natural r.notAttempted),
    ("cancelled", .flag r.cancelled),
    ("elapsed_ms", .numeral (floatText r.elapsed.milliseconds))]

namespace JsonLines

/-- **The pieces of a message** in the JSON form. -/
def pieces : Message → List String
  | .opened _ => []
  | .started _ => []
  | .recorded r => [r.toJson.render, "\n"]
  | .finished summary => [summary.toJson.render, "\n"]

end JsonLines

end TripleScript
