import TripleScript.Cli.Arguments
import TripleScript.Run.Report

/-!
# Colours

On a terminal the marked lines of a report are coloured, unless the user
wants none. A colour is written as an escape sequence before the line and a
reset behind it. The closing line of a run has a sign in front that is
coloured likewise.
-/

namespace TripleScript.Cli

/-- The codes of a style, with semicolons between them. -/
abbrev Style := String

/-- The styles of a theme. -/
structure Palette where
  /-- For lines that announce something. -/
  heading : Style
  /-- For what was left out. -/
  info : Style
  /-- For success. -/
  success : Style
  /-- For failure. -/
  warn : Style
deriving DecidableEq, Inhabited, Repr

/-- The styles for dark terminals. -/
def Palette.dark : Palette := ⟨"1;35", "96", "1;92", "1;33"⟩

/-- The styles for light terminals. -/
def Palette.light : Palette := ⟨"1;34", "35", "1;32", "1;31"⟩

/-- The styles of a theme, if it has any. -/
def Theme.palette? : Theme → Option Palette
  | auto => some .dark
  | dark => some .dark
  | light => some .light
  | plain => none

/-- A text in a style. -/
def Style.paint (style : Style) (text : String) : String :=
  s!"\x1b[{style}m{text}\x1b[0m"

/-- The style of a marked line. -/
def Palette.style (p : Palette) : Marker → Style
  | .heading => p.heading
  | .success => p.success
  | .failure => p.warn
  | .skipped => p.info

/-- The colouring of marked lines, if there are colours. -/
def decoration : Option Palette → Decoration
  | none => Plain.undecorated
  | some p => fun marker line => (p.style marker).paint line

/-- How long a run took, for people: in seconds with two places, or in
milliseconds. -/
def shownElapsed (e : Elapsed) : String :=
  let e := e.normal
  let hundredths := e.seconds * 100 + (e.nanoseconds + 5000000) / 10000000
  if e.seconds ≥ 1 then
    let tenths := hundredths % 100 / 10
    s!"{hundredths / 100}.{tenths}{hundredths % 10}s"
  else s!"{(e.nanoseconds + 500000) / 1000000}ms"

/-- What a summary counts. -/
def countsText (r : RunSummary) : String :=
  let counts := s!"{r.succeeded} of {r.total} statements succeeded, {r.failed} failed"
  if r.cancelled then s!"run cancelled: {counts}, {r.notAttempted} not attempted" else counts

/-- The closing line of a run, without how long it took. -/
def closingLine (palette : Option Palette) (r : RunSummary) : String :=
  let sign := if r.cancelled then "⚠" else "✔"
  let painted := match palette with
    | none => sign
    | some p => Style.paint (if r.cancelled then p.warn else p.success) sign
  s!"{painted} {countsText r}"

end TripleScript.Cli
