import TripleScript.Proofs.Run.Calm
import TripleScript.Proofs.Text.Bytes

/-!
# Reports for which there is no room

A report is written message by message, and a message piece by piece. A writer that
has room for a number of bytes takes of each piece what fits, and at the first piece
that does not fit the report gives up the message. What the writer has then is the
front part of the report, as far as there was room, and that is still so when
further messages come, since there is no room left for any of their pieces.

`Writer.Filled` says this of a writer: with the bytes it was to take, it has taken
the first of them, and has room for as many more as are missing. A piece keeps it
(`Writer.Filled.put`), so a message does (`Writer.Filled.putAll`), although its
pieces behind the first that does not fit are not written at all. What becomes of a
message depends on its text alone, and not on how it is cut into pieces. So
`report_stops_where_room_ends` compares the pieces of a report, cut in whatever way,
with the report that a writer takes whose room is not limited.
-/

namespace TripleScript

open Text

/-- The forms in which a run is reported. -/
inductive ReportForm where
  /-- For people, with the marked lines decorated. -/
  | plain (decorate : Decoration)
  /-- One JSON object per line. -/
  | json

/-- The pieces of a message in a form. -/
def ReportForm.pieces : ReportForm → Message → List String
  | plain decorate => Plain.pieces decorate
  | json => JsonLines.pieces

/-! ## The text of a report -/

theorem reportText_append (pieces : Message → List String) (ms ms' : List Message) :
    reportText pieces (ms ++ ms') = reportText pieces ms ++ reportText pieces ms' := by
  unfold reportText
  rw [List.flatMap_append, String.join_append]

theorem reportText_cons (pieces : Message → List String) (m : Message) (ms : List Message) :
    reportText pieces (m :: ms) = String.join (pieces m) ++ reportText pieces ms := by
  unfold reportText
  rw [List.flatMap_cons, String.join_append]

/-- A report reads the same however its messages are cut into pieces. -/
theorem reportText_congr {pieces pieces' : Message → List String}
    (h : ∀ m, String.join (pieces m) = String.join (pieces' m)) (ms : List Message) :
    reportText pieces ms = reportText pieces' ms := by
  induction ms with
  | nil => rfl
  | cons m ms ih => rw [reportText_cons, reportText_cons, h, ih]

namespace Writer

/-- **A writer given some messages**, one after the other: whether it takes each of
them, and the writer behind them. -/
def tellAll (pieces : Message → List String) (w : Writer) : List Message → List Bool × Writer
  | [] => ([], w)
  | m :: ms =>
    let (taken, w) := w.putAll (pieces m)
    let (others, w) := w.tellAll pieces ms
    (taken :: others, w)

theorem length_tellAll (pieces : Message → List String) (w : Writer) (ms : List Message) :
    (w.tellAll pieces ms).1.length = ms.length := by
  induction ms generalizing w with
  | nil => rfl
  | cons m ms ih => exact congrArg (· + 1) (ih _)

/-! ## A writer without a limit -/

/-- A writer without a limit takes the text of a message. -/
theorem written_putAll_of_room_eq_none {w : Writer} (h : w.room = none)
    (pieces : List String) :
    (w.putAll pieces).2.room = none
      ∧ (w.putAll pieces).2.written = w.written ++ bytesOf (String.join pieces) := by
  induction pieces generalizing w with
  | nil => exact ⟨h, by simp [putAll]⟩
  | cons piece pieces ih =>
    have hput : w.put piece = (true, { w with taken := bytesOf piece :: w.taken }) := by
      unfold put
      rw [h]
    obtain ⟨hroom, hwritten⟩ := ih (w := { w with taken := bytesOf piece :: w.taken }) h
    rw [putAll, hput, String.join_cons, bytesOf_append, ← List.append_assoc]
    exact ⟨hroom, hwritten.trans (congrArg (· ++ _) (written_mk_cons ..))⟩

/-- **A writer without a limit takes the text of the report.** -/
theorem written_tellAll (pieces : Message → List String) {w : Writer} (h : w.room = none)
    (ms : List Message) :
    (w.tellAll pieces ms).2.written = w.written ++ bytesOf (reportText pieces ms) := by
  induction ms generalizing w with
  | nil => simp [tellAll, reportText]
  | cons m ms ih =>
    obtain ⟨hroom, hwritten⟩ := written_putAll_of_room_eq_none h (pieces m)
    calc (w.tellAll pieces (m :: ms)).2.written
        = ((w.putAll (pieces m)).2.tellAll pieces ms).2.written := rfl
      _ = w.written ++ bytesOf (String.join (pieces m)) ++ bytesOf (reportText pieces ms) := by
          rw [ih hroom, hwritten]
      _ = w.written ++ bytesOf (reportText pieces (m :: ms)) := by
          rw [reportText_cons, bytesOf_append, List.append_assoc]

/-! ## A writer with little room -/

/-- **A writer with room for so many bytes** at first has taken the first of those
that it was to take, and has room for as many as are missing. -/
structure Filled (w : Writer) (limit : ℕ) (offered : List UInt8) : Prop where
  /-- There is room for what is missing. -/
  room : w.room = some (limit - offered.length)
  /-- And for no more than was taken. -/
  written : w.written = offered.take limit

variable {w : Writer} {limit : ℕ} {offered : List UInt8}

/-- Where nothing fits any more, nothing is taken any more. -/
theorem Filled.append (h : w.Filled limit offered) (hfull : limit ≤ offered.length)
    (more : List UInt8) : w.Filled limit (offered ++ more) where
  room := by
    have hlength : limit ≤ (offered ++ more).length :=
      hfull.trans (List.length_append ▸ Nat.le_add_right ..)
    rw [h.room, Nat.sub_eq_zero_of_le hfull, Nat.sub_eq_zero_of_le hlength]
  written := by rw [h.written, List.take_append_of_le_length hfull]

/-- **A piece is taken whole** if it is empty or if all that was to be taken up to
its end fits. -/
theorem Filled.put (h : w.Filled limit offered) (piece : String) :
    (w.put piece).2.Filled limit (offered ++ bytesOf piece)
      ∧ ((w.put piece).1 = true
        ↔ bytesOf piece = [] ∨ (offered ++ bytesOf piece).length ≤ limit) := by
  have hput : w.put piece = (decide ((bytesOf piece).length ≤ limit - offered.length),
      { room := some (limit - offered.length - (bytesOf piece).length),
        taken := (bytesOf piece).take (limit - offered.length) :: w.taken }) := by
    unfold Writer.put
    rw [h.room]
  rw [hput, decide_eq_true_iff, ← List.length_eq_zero_iff, List.length_append]
  refine ⟨⟨?_, ?_⟩, by omega⟩
  · rw [List.length_append, Nat.sub_sub]
  · rw [written_mk_cons, List.take_append, ← h.written]
    rfl

/-- **A message is taken** if it has no text or if all that was to be taken up to its
end fits. If it is given up, there is no room for its other pieces. -/
theorem Filled.putAll (h : w.Filled limit offered) (pieces : List String) :
    (w.putAll pieces).2.Filled limit (offered ++ bytesOf (String.join pieces))
      ∧ ((w.putAll pieces).1 = true ↔ bytesOf (String.join pieces) = []
        ∨ (offered ++ bytesOf (String.join pieces)).length ≤ limit) := by
  induction pieces generalizing w offered with
  | nil =>
    rw [String.join_nil, bytesOf_empty, List.append_nil]
    exact ⟨h, iff_of_true rfl (.inl rfl)⟩
  | cons piece pieces ih =>
    obtain ⟨hfilled, htaken⟩ := h.put piece
    rw [String.join_cons, bytesOf_append, ← List.append_assoc, Writer.putAll]
    dsimp only
    split
    · next hwhole =>
      obtain ⟨hrest, hothers⟩ := ih hfilled
      refine ⟨hrest, hothers.trans ?_⟩
      have hpiece := htaken.mp hwhole
      simp only [← List.length_eq_zero_iff, List.length_append] at hpiece ⊢
      omega
    · next hcut =>
      rw [htaken] at hcut
      simp only [← List.length_eq_zero_iff, List.length_append] at hcut
      refine ⟨hfilled.append ?_ _, iff_of_false Bool.false_ne_true ?_⟩
      · rw [List.length_append]
        omega
      · simp only [← List.length_eq_zero_iff, List.length_append]
        omega

/-- **So is each message of a report.** -/
theorem Filled.tellAll (h : w.Filled limit offered) (pieces : Message → List String)
    (ms : List Message) :
    (w.tellAll pieces ms).2.Filled limit (offered ++ bytesOf (reportText pieces ms))
      ∧ ∀ i m, ms[i]? = some m → ((w.tellAll pieces ms).1[i]? = some true
        ↔ bytesOf (String.join (pieces m)) = []
          ∨ (offered ++ bytesOf (reportText pieces (ms.take (i + 1)))).length ≤ limit) := by
  induction ms generalizing w offered with
  | nil =>
    refine ⟨?_, nofun⟩
    show w.Filled limit (offered ++ bytesOf "")
    rwa [bytesOf_empty, List.append_nil]
  | cons m ms ih =>
    obtain ⟨hfilled, htaken⟩ := h.putAll (pieces m)
    obtain ⟨hrest, hothers⟩ := ih hfilled
    rw [reportText_cons, bytesOf_append, ← List.append_assoc]
    refine ⟨hrest, fun i m' hm' => ?_⟩
    cases i with
    | zero =>
      obtain rfl := Option.some.inj hm'
      rw [List.take_succ_cons, List.take_zero, reportText_cons]
      show some _ = some true ↔ _
      rw [Option.some_inj, htaken]
      simp [reportText]
    | succ i =>
      rw [List.take_succ_cons, reportText_cons, bytesOf_append, ← List.append_assoc]
      exact hothers i m' hm'

end Writer

/-- The bytes of the report on some messages, written where there is no limit. -/
def ReportForm.output (form : ReportForm) (ms : List Message) : List UInt8 :=
  (Writer.tellAll form.pieces {} ms).2.written

theorem ReportForm.output_eq (form : ReportForm) (ms : List Message) :
    form.output ms = bytesOf (reportText form.pieces ms) :=
  Writer.written_tellAll form.pieces rfl ms

/-- **A report stops where the room ends**, in either form, whatever the messages
are and whatever is made of the marked lines. The messages may be written in any
pieces that make up the same texts. A writer with room for so many bytes ends up with
the first so many bytes of the report, and with all of it if it is shorter. It takes
a message if and only if the message adds nothing to the report, or the report up to
the end of this message fits. -/
theorem report_stops_where_room_ends (form : ReportForm) {pieces : Message → List String}
    (hpieces : ∀ m, String.join (pieces m) = String.join (form.pieces m))
    (ms : List Message) (room : ℕ) :
    let told := Writer.tellAll pieces { room := some room } ms
    told.2.written = (form.output ms).take (min room (form.output ms).length)
      ∧ told.1.length = ms.length
      ∧ ∀ i < ms.length, told.1[i]? = some true
        ↔ form.output (ms.take (i + 1)) = form.output (ms.take i)
          ∨ (form.output (ms.take (i + 1))).length ≤ room := by
  intro told
  have hstart : Writer.Filled { room := some room } room [] := ⟨rfl, List.take_nil.symm⟩
  obtain ⟨hfilled, htaken⟩ := hstart.tellAll pieces ms
  have houtput : ∀ ms, bytesOf (reportText pieces ms) = form.output ms := fun ms => by
    rw [form.output_eq, reportText_congr hpieces]
  refine ⟨?_, Writer.length_tellAll .., fun i hi => ?_⟩
  · rw [hfilled.written, List.nil_append, houtput, List.take_eq_take_min]
  · have hm : ms[i]? = some ms[i] := List.getElem?_eq_getElem hi
    have hnext : form.output (ms.take (i + 1))
        = form.output (ms.take i) ++ bytesOf (String.join (pieces ms[i])) := by
      rw [← houtput, ← houtput, List.take_succ_eq_append_getElem hi, reportText_append,
        bytesOf_append, reportText_cons, bytesOf_append]
      simp [reportText]
    rw [htaken i ms[i] hm, List.nil_append, houtput, hnext, List.append_right_eq_self]

/-- A text is made up of its characters. -/
theorem join_map_singleton (s : String) :
    String.join (s.toList.map String.singleton) = s := by
  rw [← String.toList_inj, String.toList_join, List.flatMap_map]
  simp

/-- A JSON report written character by character where there is room for a part of a
statement, up to the middle of a character. A message without a text is taken before
it, and one behind it, although there is no room left. -/
theorem report_stops_where_room_ends_in_character :
    let ms : List Message := [.opened ⟨"s", []⟩, .recorded ⟨1, 1, "é", .notAttempted⟩,
      .started ⟨2, 2, "x"⟩]
    let pieces : Message → List String := fun m =>
      (String.join (ReportForm.json.pieces m)).toList.map String.singleton
    let told := Writer.tellAll pieces { room := some 52 } ms
    told.1 = [true, false, true] ∧ told.2.written.getLast? = (bytesOf "é").head?
      ∧ told.2.written
        = (ReportForm.json.output ms).take (min 52 (ReportForm.json.output ms).length) := by
  intro ms pieces told
  have htold : told.1 = [true, false, true]
      ∧ told.2.written.getLast? = (bytesOf "é").head? := by
    decide +kernel
  obtain ⟨hwritten, -, -⟩ := @report_stops_where_room_ends .json pieces
    (fun m => join_map_singleton _) ms 52
  exact ⟨htold.1, htold.2, hwritten⟩

end TripleScript
