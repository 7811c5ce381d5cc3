import TripleScript.Text.Numeral

/-!
# TOML dates and times

A date is written `1979-05-27` and has to be in the calendar. A time is
written `07:32:00`, perhaps with a fraction of the second, and a minute may
have a leap second. A date and a time make a moment, with a letter `T` or a
blank between them, and a moment may say how far its time zone is ahead.

A configuration has no use for any of them, so all that matters is which
texts are one.
-/

namespace TripleScript.Cli.Toml

/-- The number that `count` digits at the beginning of a text write, and the
text behind them. -/
def digits? (count : Nat) (cs : List Char) : Option (Nat × List Char) :=
  let ds := cs.take count
  if ds.length = count && ds.all Char.isDigit then
    some (Text.valueOfDigits 0 ds, cs.drop count)
  else none

/-- The text behind a character that has to be there. -/
def behind? (c : Char) : List Char → Option (List Char)
  | [] => none
  | d :: cs => if d = c then some cs else none

/-! ## Dates -/

/-- Whether a year has a leap day. -/
def isLeapYear (year : Nat) : Bool :=
  year % 4 == 0 && (year % 100 != 0 || year % 400 == 0)

/-- How many days a month has. -/
def daysIn (year month : Nat) : Nat :=
  match month with
  | 2 => if isLeapYear year then 29 else 28
  | 4 | 6 | 9 | 11 => 30
  | _ => 31

/-- The text behind a date. -/
def behindDate? (cs : List Char) : Option (List Char) := do
  let (year, cs) ← digits? 4 cs
  let (month, cs) ← digits? 2 (← behind? '-' cs)
  let (day, cs) ← digits? 2 (← behind? '-' cs)
  if 1 ≤ month ∧ month ≤ 12 ∧ 1 ≤ day ∧ day ≤ daysIn year month then some cs else none

/-! ## Times -/

/-- The text behind hours and minutes. -/
def behindMinutes? (cs : List Char) : Option (List Char) := do
  let (hour, cs) ← digits? 2 cs
  let (minute, cs) ← digits? 2 (← behind? ':' cs)
  if hour < 24 ∧ minute < 60 then some cs else none

/-- The text behind the fraction of a second, if there is one. -/
def behindFraction? : List Char → Option (List Char)
  | '.' :: cs =>
    match cs.takeWhile Char.isDigit with
    | [] => none
    | _ => some (cs.dropWhile Char.isDigit)
  | cs => some cs

/-- The text behind a time. -/
def behindTime? (cs : List Char) : Option (List Char) := do
  let cs ← behindMinutes? cs
  let (second, cs) ← digits? 2 (← behind? ':' cs)
  if second ≤ 60 then behindFraction? cs else none

/-- The text behind a time zone, if there is one. -/
def behindZone? : List Char → Option (List Char)
  | 'Z' :: cs => some cs
  | 'z' :: cs => some cs
  | '+' :: cs => behindMinutes? cs
  | '-' :: cs => behindMinutes? cs
  | cs => some cs

/-! ## Moments -/

/-- Whether a text is a date. -/
def isDate (cs : List Char) : Bool :=
  behindDate? cs == some []

/-- Whether a text is a time, perhaps with a time zone. -/
def isZonedTime (cs : List Char) : Bool :=
  (behindTime? cs).bind behindZone? == some []

/-- **Whether a text is a date, a time or a moment** with a letter between the
two. -/
def isMoment (cs : List Char) : Bool :=
  isDate cs || behindTime? cs == some [] || match behindDate? cs with
    | some ('T' :: cs) => isZonedTime cs
    | some ('t' :: cs) => isZonedTime cs
    | _ => false

end TripleScript.Cli.Toml
