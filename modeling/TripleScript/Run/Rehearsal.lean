import TripleScript.Run.Report

/-!
# Rehearsals

To see how a run deals with trouble, one rehearses it. The rehearsal engine
does what the text of a statement tells it: the text names a stage, an action
and a detail, with colons between them, and at that stage the action happens.
At the third stage the engine first leaves a triple in the store, so that one
can see that the stage was reached.

The rehearsal sink keeps the messages it gets, cancels the run at one of
them if it is told to, and writes both forms of the report, unless it is told
to fail at messages of that kind.
-/

namespace TripleScript.Rehearsal

/-! ## The engine -/

/-- What a statement tells the rehearsal engine. -/
structure Cue where
  /-- The whole text. -/
  text : String
  /-- The stage at which something happens. -/
  stage : String
  /-- What happens. -/
  action : String
  /-- The message it happens with. -/
  detail : String
deriving DecidableEq, Inhabited, Repr

/-- The part of a text before its first colon, and the part behind it. -/
def splitColon (cs : List Char) : List Char × List Char :=
  (cs.takeWhile (· ≠ ':'), (cs.dropWhile (· ≠ ':')).drop 1)

/-- The cue of a text; parts that are missing are empty. -/
def Cue.parse (text : String) : Cue :=
  let (stage, rest) := splitColon text.toList
  let (action, detail) := splitColon rest
  ⟨text, String.ofList stage, String.ofList action, String.ofList detail⟩

/-- What a stage comes to at which `a` would be passed on. -/
def Cue.act {α : Type} (cue : Cue) (stage : Stage) (a : α) (s : Session) :
    Attempt α × Session :=
  if cue.stage ≠ stage.name then (.done a, s)
  else
    match cue.action with
    | "err" => (.failed cue.detail, s)
    | "panic" => (.brokeDown (some cue.detail), s)
    | "panic_string" => (.brokeDown (some cue.detail), s)
    | "panic_other" => (.brokeDown none, s)
    | "cancel_err" => (.failed cue.detail, s.cancel)
    | "cancel" => (.done a, s.cancel)
    | "hang" => (.done a, s.cancel)
    | _ => (.done a, s)

/-- The triple that shows that a statement reached the third stage. -/
def trace (text : String) : Triple :=
  ⟨⟨text⟩, ⟨"ran"⟩, ⟨"yes"⟩⟩

/-- The table that a statement ends with. -/
def resultTable (text channel added : String) : Table where
  columns := ["text", "channel", "added"]
  rows := [[⟨text⟩, ⟨channel⟩, ⟨added⟩]]

/-- The third stage: the trace, the action, and the table. -/
def perform (cue : Cue) (channel : ChannelSize) (s : Session) : Execution × Session :=
  let (added, s) := match Session.insert [trace cue.text] s with
    | .ok n s => (toString n, s)
    | .error e s => (e.message, s)
  let table := resultTable cue.text (toString channel.capacity) added
  let (attempt, s) := cue.act .execute table s
  if cue.stage = Stage.execute.name ∧ cue.action = "hang" then (.abandoned, s)
  else (.returned attempt, s)

/-- **The rehearsal engine.** -/
def engine : Engine where
  Compiled := Cue
  Planned := Cue × ChannelSize
  compile text s := let cue := Cue.parse text; cue.act .compile cue s
  plan cue channel s := cue.act .plan (cue, channel) s
  execute planned s := perform planned.1 planned.2 s

/-! ## The sink -/

/-- The kinds of messages. -/
inductive Phase where
  /-- The run begins. -/
  | opened
  /-- A statement starts. -/
  | started
  /-- What came of a statement. -/
  | recorded
  /-- The run is over. -/
  | finished
deriving DecidableEq, Inhabited, Repr

/-- The kind of a message. -/
def Phase.of : Message → Phase
  | .opened _ => opened
  | .started _ => started
  | .recorded _ => recorded
  | .finished _ => finished

/-- The position of the statement a message is about, or zero. -/
def positionOf : Message → Nat
  | .started statement => statement.position
  | .recorded report => report.position
  | _ => 0

/-- What the sink is told to do. -/
structure Orders where
  /-- The kind and position of the message at which to cancel the run. -/
  cancelAt : Option (Phase × Nat) := none
  /-- The kinds of messages at which to fail. -/
  failAt : List Phase := []
  /-- What is made of the marked lines of the plain report. -/
  decorate : Decoration := Plain.undecorated

/-- What the sink keeps. -/
structure Notes where
  /-- The messages, and how many triples the store had at each. -/
  messages : Array (Message × Nat) := #[]
  /-- The plain report. -/
  plain : Writer := {}
  /-- The JSON report. -/
  json : Writer := {}
deriving Inhabited

/-- A message written to both reports; to the second only if the first takes
it. -/
def Notes.write (orders : Orders) (m : Message) (notes : Notes) : Bool × Notes :=
  let (taken, plain) := notes.plain.putAll (Plain.pieces orders.decorate m)
  let notes := { notes with plain }
  if taken then
    let (taken, json) := notes.json.putAll (JsonLines.pieces m)
    (taken, { notes with json })
  else (false, notes)

/-- **The rehearsal sink.** -/
def sink (orders : Orders) : Sink Notes where
  take m s notes :=
    let notes := { notes with messages := notes.messages.push (m, s.store.memory.size) }
    let cancels := orders.cancelAt = some (Phase.of m, positionOf m)
    if orders.failAt.contains (Phase.of m) then ({ taken := false, cancels }, notes)
    else
      let (taken, notes) := notes.write orders m
      ({ taken, cancels }, notes)

end TripleScript.Rehearsal
