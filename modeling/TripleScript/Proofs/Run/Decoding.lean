import TripleScript.Proofs.Lists
import TripleScript.Proofs.Run.Writing
import TripleScript.Proofs.Text.JsonReading
import TripleScript.Text.Lines

/-!
# Reports that are read back

A report in JSON has a line for each statement and one for the summary
(`output_eq_jsonLines`). A line is read by itself: `Message.ofJson?` takes the parts of
a statement report or of a summary out of the value that the line stands for, by the
names of its fields and in whatever order these are. Nothing of a statement is lost in
its line (`Message.read?_statement`), and nothing of the summary but the time that the
run took, which is rounded there (`Message.read?_summary`). The lines are found since
no line feed stands in them, escaped as it is. So a report gives back what it is about,
and two reports that are the same are about the same (`json_report_reads_back`).
-/

namespace TripleScript

open Text (Json bytesOf floatText)

/-! ## Parts of values -/

namespace Text.Json

/-- The value of a field. -/
def field? : Json → String → Option Json
  | object fields, name => fields.lookup name
  | _, _ => none

/-- The text that a string is. -/
def text? : Json → Option String
  | text s => some s
  | _ => none

/-- The number that a value is, if it is a natural number. -/
def natural? : Json → Option ℕ
  | natural n => some n
  | _ => none

/-- The truth value that a value is. -/
def flag? : Json → Option Bool
  | flag b => some b
  | _ => none

/-- What the items of a list give, if each of them gives something. -/
def list? {α : Type} (read : Json → Option α) : Json → Option (List α)
  | list items => items.mapM read
  | _ => none

/-- **A list gives what it was made of** if each of its items does. -/
theorem list?_list {α : Type} (read : Json → Option α) (write : α → Json)
    (h : ∀ a, read (write a) = some a) (as : List α) :
    (list (as.map write)).list? read = some as := by
  show (as.map write).mapM read = some as
  rw [List.mapM_map]
  exact (mapM_eq_some_map fun a _ => h a).trans (congrArg some (List.map_id' as))

end Text.Json

/-! ## Statements and summaries -/

/-- The node that a value gives. -/
def Node.ofJson? (j : Json) : Option Node :=
  j.text?.map Node.mk

/-- The table that a value gives. -/
def Table.ofJson? (j : Json) : Option Table := do
  let columns ← (← j.field? "columns").list? Json.text?
  let rows ← (← j.field? "rows").list? (Json.list? Node.ofJson?)
  some { columns, rows }

/-- The stage with a name. -/
def Stage.ofName? (name : String) : Option Stage :=
  [compile, plan, execute].find? (·.name = name)

/-- The failure that a value gives. -/
def Failure.ofJson? (j : Json) : Option Failure := do
  let stage ← Stage.ofName? (← (← j.field? "stage").text?)
  let message ← (← j.field? "message").text?
  some ⟨stage, message⟩

/-- What came of a statement, by the fields of its report. -/
def Status.ofJson? (j : Json) : Option Status := do
  match ← (← j.field? "status").text? with
  | "succeeded" => some (.succeeded (← Table.ofJson? (← j.field? "table")))
  | "failed" => some (.failed (← Failure.ofJson? (← j.field? "failure")))
  | "not_attempted" => some .notAttempted
  | _ => none

/-- The report on a statement that a value gives. -/
def StatementReport.ofJson? (j : Json) : Option StatementReport := do
  let position ← (← j.field? "position").natural?
  let total ← (← j.field? "total").natural?
  let text ← (← j.field? "text").text?
  let status ← Status.ofJson? j
  some { position, total, text, status }

/-- The summary that a value gives, without the time. -/
def RunSummary.ofJson? (j : Json) : Option RunSummary := do
  let source ← (← j.field? "source").text?
  let total ← (← j.field? "total").natural?
  let succeeded ← (← j.field? "succeeded").natural?
  let failed ← (← j.field? "failed").natural?
  let notAttempted ← (← j.field? "not_attempted").natural?
  let cancelled ← (← j.field? "cancelled").flag?
  some { source, total, succeeded, failed, notAttempted, cancelled }

/-- The message that a value gives. -/
def Message.ofJson? (j : Json) : Option Message := do
  match ← (← j.field? "kind").text? with
  | "statement" => some (.recorded (← StatementReport.ofJson? j))
  | "summary" => some (.finished (← RunSummary.ofJson? j))
  | _ => none

/-- **The message that a line gives.** -/
def Message.read? (line : List Char) : Option Message :=
  (Json.read? line).bind ofJson?

/-- **The messages that a report gives**, line by line. -/
def readReport? (bytes : List UInt8) : Option (List Message) :=
  (Text.ofBytes? bytes).bind fun text => (Text.lines text.toList).mapM Message.read?

/-! ## What is read back -/

theorem Table.ofJson?_toJson (t : Table) : Table.ofJson? t.toJson = some t := by
  have hcolumns := Json.list?_list Json.text? Json.text (fun _ => rfl) t.columns
  have hrow := Json.list?_list Node.ofJson? (fun n => .text n.text) fun _ => rfl
  have hrows := Json.list?_list _ _ hrow t.rows
  show (Json.list? Json.text? (.list (t.columns.map Json.text))).bind _ = some t
  rw [hcolumns]
  show (Json.list? _ _).bind _ = some t
  rw [hrows]
  rfl

/-- **What came of a statement is read back** from the fields that say it, behind the
other fields of the report. -/
theorem Status.ofJson?_fields (status : Status) (position total : ℕ) (text : String) :
    Status.ofJson? (StatementReport.toJson ⟨position, total, text, status⟩) = some status := by
  cases status with
  | succeeded table =>
    show (Table.ofJson? table.toJson).bind _ = _
    rw [Table.ofJson?_toJson]
    rfl
  | failed failure =>
    obtain ⟨stage, message⟩ := failure
    cases stage <;> rfl
  | notAttempted => rfl

theorem StatementReport.ofJson?_toJson (r : StatementReport) :
    StatementReport.ofJson? r.toJson = some r := by
  obtain ⟨position, total, text, status⟩ := r
  have hstatus := Status.ofJson?_fields status position total text
  show (Status.ofJson? _).bind _ = _
  rw [hstatus]
  rfl

/-! ## Values with a meaning -/

theorem Table.sound_toJson (t : Table) : t.toJson.Sound := by
  refine .object ?_ (show ["columns", "rows"].Nodup by decide)
  rw [List.forall_mem_cons, List.forall_mem_singleton]
  refine ⟨.list ?_, .list ?_⟩
  · exact List.forall_mem_map.mpr fun name _ => .text name
  · exact List.forall_mem_map.mpr fun row _ =>
      .list (List.forall_mem_map.mpr fun n _ => .text n.text)

theorem Status.sound_fields (status : Status) : ∀ f ∈ status.fields, f.2.Sound := by
  cases status with
  | succeeded table =>
    simp only [fields, List.forall_mem_cons]
    exact ⟨.text _, table.sound_toJson, nofun⟩
  | failed failure =>
    have hfailure : (Json.object [("stage", .text failure.stage.name),
        ("message", .text failure.message)]).Sound := by
      refine .object ?_ (show ["stage", "message"].Nodup by decide)
      rw [List.forall_mem_cons, List.forall_mem_singleton]
      exact ⟨.text _, .text _⟩
    simp only [fields, List.forall_mem_cons]
    exact ⟨.text _, hfailure, nofun⟩
  | notAttempted =>
    rw [fields, List.forall_mem_singleton]
    exact .text _

/-- **No key of a statement report comes twice**, whatever fields say what came of the
statement. -/
theorem StatementReport.nodup_keys (status : Status) :
    (["kind", "position", "total", "text"] ++ status.fields.map Prod.fst).Nodup := by
  cases status with
  | succeeded table =>
    show ["kind", "position", "total", "text", "status", "table"].Nodup
    decide
  | failed failure =>
    show ["kind", "position", "total", "text", "status", "failure"].Nodup
    decide
  | notAttempted => decide

theorem StatementReport.sound_toJson (r : StatementReport) : r.toJson.Sound := by
  refine .object (List.forall_mem_append.mpr ⟨?_, r.status.sound_fields⟩) ?_
  · simp only [List.forall_mem_cons]
    exact ⟨.text _, .natural _, .natural _, .text _, nofun⟩
  · rw [List.map_append]
    exact nodup_keys r.status

theorem RunSummary.sound_toJson (r : RunSummary) : r.toJson.Sound := by
  refine .object ?_ (show ["kind", "source", "total", "succeeded", "failed", "not_attempted",
    "cancelled", "elapsed_ms"].Nodup by decide)
  simp only [List.forall_mem_cons]
  exact ⟨.text _, .text _, .natural _, .natural _, .natural _, .natural _, .flag _,
    .numeral (Text.isReal_floatText _), nofun⟩

/-! ## Lines -/

/-- **The line of a statement gives the statement back.** -/
theorem Message.read?_statement (r : StatementReport) :
    Message.read? r.toJson.render.toList = some (.recorded r) := by
  rw [Message.read?, r.sound_toJson.read?_render]
  show (StatementReport.ofJson? r.toJson).bind _ = _
  rw [r.ofJson?_toJson]
  rfl

/-- **The line of the summary gives the summary back**, except for the time. -/
theorem Message.read?_summary (r : RunSummary) :
    Message.read? r.toJson.render.toList = some (.finished { r with elapsed := {} }) := by
  rw [Message.read?, r.sound_toJson.read?_render]
  rfl

/-- What has no control characters is read line by line. -/
theorem lines_join_newline {texts : List String} (h : ∀ s ∈ texts, Json.Printable s) :
    Text.lines (String.join (texts.map (· ++ "\n"))).toList = texts.map String.toList := by
  induction texts with
  | nil => rfl
  | cons s texts ih =>
    obtain ⟨hs, htexts⟩ := List.forall_mem_cons.mp h
    have hnewline : '\n' ∉ s.toList := fun hc => absurd (hs '\n' hc) (by decide)
    have hreturn : Text.dropReturn s.toList = s.toList :=
      if_neg fun hlast => absurd (hs '\r' (List.mem_of_getLast? hlast)) (by decide)
    rw [List.map_cons, String.join_cons, String.append_assoc, String.toList_append,
      String.toList_append]
    show Text.lines (s.toList ++ '\n' :: _) = _
    rw [Text.lines_append_newline hnewline, hreturn]
    exact congrArg (s.toList :: ·) (ih htexts)

/-! ## Reports -/

/-- The lines of the report on some statements and their summary. -/
def jsonLines (records : List StatementReport) (summary : RunSummary) : List String :=
  records.map (fun r => r.toJson.render) ++ [summary.toJson.render]

/-- None of them has a control character. -/
theorem printable_jsonLines (records : List StatementReport) (summary : RunSummary) :
    ∀ line ∈ jsonLines records summary, Json.Printable line := by
  refine List.forall_mem_append.mpr ⟨List.forall_mem_map.mpr fun r _ => ?_,
    List.forall_mem_singleton.mpr ?_⟩
  · exact r.sound_toJson.printable_render
  · exact summary.sound_toJson.printable_render

/-- **A report in JSON has these lines.** -/
theorem output_eq_jsonLines (records : List StatementReport) (summary : RunSummary) :
    ReportForm.json.output (records.map .recorded ++ [.finished summary])
      = bytesOf (String.join ((jsonLines records summary).map (· ++ "\n"))) := by
  have hline : ∀ s : String, String.join [s, "\n"] = s ++ "\n" := fun s => by
    rw [String.join_cons, String.join_cons, String.join_nil, String.append_empty]
  have hrecords : reportText JsonLines.pieces (records.map .recorded)
      = String.join (records.map fun r => r.toJson.render ++ "\n") := by
    induction records with
    | nil => rfl
    | cons r records ih =>
      rw [List.map_cons, reportText_cons, ih, List.map_cons, String.join_cons]
      exact congrArg (· ++ _) (hline r.toJson.render)
  have hsummary : reportText JsonLines.pieces [.finished summary]
      = String.join [summary.toJson.render ++ "\n"] := by
    show String.join [summary.toJson.render, "\n"] = _
    rw [hline, String.join_cons, String.join_nil, String.append_empty]
  rw [ReportForm.output_eq, reportText_append]
  show bytesOf (reportText JsonLines.pieces _ ++ reportText JsonLines.pieces _) = _
  rw [hrecords, hsummary, jsonLines, List.map_append, List.map_map, String.join_append]
  rfl

/-- **The lines give the statements back, and the summary behind them.** -/
theorem mapM_read?_jsonLines (records : List StatementReport) (summary : RunSummary) :
    ((jsonLines records summary).map String.toList).mapM Message.read?
      = some (records.map .recorded ++ [.finished { summary with elapsed := {} }]) := by
  have hrecords : ((records.map fun r => r.toJson.render).map String.toList).mapM Message.read?
      = some (records.map .recorded) := by
    rw [List.map_map, List.mapM_map]
    exact mapM_eq_some_map fun r _ => Message.read?_statement r
  have hsummary : ([summary.toJson.render].map String.toList).mapM Message.read?
      = some [.finished { summary with elapsed := {} }] := by
    rw [List.map_singleton, List.mapM_cons, Message.read?_summary]
    rfl
  rw [jsonLines, List.map_append, List.mapM_append, hrecords, hsummary]
  rfl

/-- **A report in JSON is read back line by line.** Whatever the statements were and
whatever came of them, and with any characters in texts, tables and messages, the
report has one line for each statement and one for the summary, each closed by a line
feed, and no other line feed. Each line read as JSON gives back the place, the text and
the status of its statement, with the table or the failure; the last gives back the
source and the counts. So two reports are the same only if they are on the same
statements, with the same summary but for the time. -/
theorem json_report_reads_back (records : List StatementReport) (summary : RunSummary) :
    let output := ReportForm.json.output (records.map .recorded ++ [.finished summary])
    (∃ lines : List String, output = bytesOf (String.join (lines.map (· ++ "\n")))
        ∧ lines.length = records.length + 1 ∧ ∀ line ∈ lines, '\n' ∉ line.toList)
      ∧ readReport? output
        = some (records.map .recorded ++ [.finished { summary with elapsed := {} }])
      ∧ ∀ (records' : List StatementReport) summary',
        ReportForm.json.output (records'.map .recorded ++ [.finished summary']) = output →
          records' = records
            ∧ { summary' with elapsed := {} } = { summary with elapsed := {} } := by
  intro output
  have hread : ∀ (records : List StatementReport) summary, readReport?
      (ReportForm.json.output (records.map .recorded ++ [.finished summary]))
        = some (records.map .recorded ++ [.finished { summary with elapsed := {} }]) := by
    intro records summary
    rw [readReport?, output_eq_jsonLines, Text.ofBytes?_bytesOf]
    show List.mapM _ (Text.lines (String.toList _)) = _
    rw [lines_join_newline (printable_jsonLines records summary)]
    exact mapM_read?_jsonLines records summary
  refine ⟨⟨jsonLines records summary, output_eq_jsonLines records summary, ?_, ?_⟩,
    hread records summary, fun records' summary' h => ?_⟩
  · rw [jsonLines, List.length_append, List.length_map]
    rfl
  · intro line hline hnewline
    exact absurd (printable_jsonLines records summary line hline '\n' hnewline) (by decide)
  · have hsame := hread records' summary'
    rw [h, hread records summary, Option.some_inj] at hsame
    obtain ⟨hrecords, hsummary⟩ := List.append_inj' hsame rfl
    refine ⟨(List.map_injective_iff.mpr (fun r r' h => Message.recorded.inj h) hrecords).symm,
      (Message.finished.inj (List.cons.inj hsummary).1).symm⟩

end TripleScript
