import TripleScript.Text.Numeral
import TripleScript.Statement.Basic
import TripleScript.Statement.Scan

/-!
# From tokens to statements

Each function here reads one part of a statement from the front of a row of
tokens and gives the part and the tokens that follow. `stop` is the length of
the text in bytes: an error at the end of the tokens is reported there.

A part is refused at the first token that cannot belong to it. A triple takes
seven tokens (`length_of_triple`), which is why a list of them ends.
-/

namespace TripleScript

open Text

namespace Parse

/-- The error of finding something else than expected at the front. -/
def unexpected (wanted : Expectation) (stop : Nat) : List Token → SyntaxError
  | [] => ⟨.unexpected wanted none, ⟨stop, stop⟩⟩
  | t :: _ => ⟨.unexpected wanted (some t.lexeme), t.span⟩

/-- A token that has to be there. -/
def expect (lexeme : Lexeme) (wanted : Expectation) (stop : Nat) (ts : List Token) :
    Except SyntaxError (Token × List Token) :=
  match ts with
  | [] => .error (unexpected wanted stop ts)
  | t :: rest =>
    if t.lexeme = lexeme then .ok (t, rest) else .error (unexpected wanted stop ts)

/-- The tokens behind a keyword, if they begin with it. -/
def keyword? (keyword : String) : List Token → Option (List Token)
  | [] => none
  | t :: ts => if t.lexeme.isKeyword keyword then some ts else none

/-- One position of a triple. -/
def term (stop : Nat) (ts : List Token) : Except SyntaxError (Term × List Token) :=
  match ts with
  | ⟨.word text, _⟩ :: rest => .ok (.node ⟨text⟩, rest)
  | ⟨.quoted text, _⟩ :: rest => .ok (.node ⟨text⟩, rest)
  | ⟨.var name, _⟩ :: rest => .ok (.var name, rest)
  | ⟨.wildcard, _⟩ :: rest => .ok (.wildcard, rest)
  | _ => .error (unexpected .term stop ts)

/-- A triple: three terms between parentheses, with commas between them. -/
def triple (stop : Nat) (ts : List Token) :
    Except SyntaxError (TriplePattern × List Token) := do
  let (opening, ts) ← expect .openParen .openParen stop ts
  let (subject, ts) ← term stop ts
  let (_, ts) ← expect .comma .comma stop ts
  let (predicate, ts) ← term stop ts
  let (_, ts) ← expect .comma .comma stop ts
  let (object, ts) ← term stop ts
  let (closing, ts) ← expect .closeParen .closeParen stop ts
  .ok (⟨subject, predicate, object, ⟨opening.span.start, closing.span.stop⟩⟩, ts)

/-- A token that was expected is the first one. -/
theorem length_of_expect {lexeme : Lexeme} {wanted : Expectation} {stop : Nat}
    {ts rest : List Token} {t : Token}
    (h : expect lexeme wanted stop ts = .ok (t, rest)) :
    ts.length = rest.length + 1 := by
  unfold expect at h
  grind

/-- A term is one token. -/
theorem length_of_term {stop : Nat} {ts rest : List Token} {t : Term}
    (h : term stop ts = .ok (t, rest)) : ts.length = rest.length + 1 := by
  unfold term at h
  grind

/-- **A triple is seven tokens.** -/
theorem length_of_triple {stop : Nat} {ts rest : List Token} {p : TriplePattern}
    (h : triple stop ts = .ok (p, rest)) : ts.length = rest.length + 7 := by
  simp only [triple, bind, Except.bind] at h
  repeat' split at h
  all_goals first
    | contradiction
    | (next h₁ _ _ h₂ _ _ h₃ _ _ h₄ _ _ h₅ _ _ h₆ _ _ h₇ =>
        have := length_of_expect h₁; have := length_of_term h₂
        have := length_of_expect h₃; have := length_of_term h₄
        have := length_of_expect h₅; have := length_of_term h₆
        have := length_of_expect h₇
        simp at h; grind)

/-- One or more triples with commas between them. -/
def triples (stop : Nat) (ts : List Token) :
    Except SyntaxError (List TriplePattern × List Token) :=
  match _h : triple stop ts with
  | .error e => .error e
  | .ok (p, ⟨.comma, _⟩ :: rest) =>
    match triples stop rest with
    | .error e => .error e
    | .ok (ps, rest) => .ok (p :: ps, rest)
  | .ok (p, rest) => .ok ([p], rest)
termination_by ts.length
decreasing_by
  have := length_of_triple _h
  simp only [List.length_cons] at this
  omega

/-- One or more variables with commas between them. -/
def columns (stop : Nat) : List Token → Except SyntaxError (List String × List Token)
  | ⟨.var name, _⟩ :: ⟨.comma, _⟩ :: rest =>
    match columns stop rest with
    | .error e => .error e
    | .ok (names, rest) => .ok (name :: names, rest)
  | ⟨.var name, _⟩ :: rest => .ok ([name], rest)
  | ts => .error (unexpected .column stop ts)

/-- The columns of a query. -/
def projection (stop : Nat) (ts : List Token) :
    Except SyntaxError (Projection × List Token) :=
  match ts with
  | ⟨.star, _⟩ :: rest => .ok (.all, rest)
  | _ =>
    match columns stop ts with
    | .error e => .error e
    | .ok (names, rest) => .ok (.vars names, rest)

/-- The largest row count there is, the greatest number of 64 bits. -/
def maxRowCount : Nat := 18446744073709551615

/-- The row count a lexeme writes. -/
def rowCount? : Lexeme → Option Nat
  | .word text => (numeral? text.toList).filter (· ≤ maxRowCount)
  | _ => none

/-- The row limit of a query, if the tokens begin with one. -/
def limit (stop : Nat) (ts : List Token) :
    Except SyntaxError (Option Nat × List Token) :=
  match keyword? "LIMIT" ts with
  | none => .ok (none, ts)
  | some [] => .error ⟨.missingRowCount, ⟨stop, stop⟩⟩
  | some (t :: rest) =>
    match rowCount? t.lexeme with
    | some n => .ok (some n, rest)
    | none => .error ⟨.invalidRowCount t.lexeme, t.span⟩

/-- A query, from behind its first keyword. -/
def select (stop : Nat) (ts : List Token) :
    Except SyntaxError (SelectStatement × List Token) := do
  let (distinct, ts) := match keyword? "DISTINCT" ts with
    | some rest => (true, rest)
    | none => (false, ts)
  let (projection, ts) ← projection stop ts
  match keyword? "WHERE" ts with
  | none => .error (unexpected .whereClause stop ts)
  | some ts =>
    let (patterns, ts) ← triples stop ts
    let (limit, ts) ← limit stop ts
    .ok (⟨distinct, projection, patterns, limit⟩, ts)

/-- A statement. -/
def statement (stop : Nat) (ts : List Token) :
    Except SyntaxError (Statement × List Token) :=
  match keyword? Verb.insert.keyword ts, keyword? Verb.delete.keyword ts,
    keyword? Verb.select.keyword ts with
  | some rest, _, _ => (triples stop rest).map fun (ps, rest) => (.insert ps, rest)
  | none, some rest, _ => (triples stop rest).map fun (ps, rest) => (.delete ps, rest)
  | none, none, some rest => (select stop rest).map fun (q, rest) => (.select q, rest)
  | none, none, none => .error (unexpected .statement stop ts)

/-- A part with nothing behind it. -/
def whole {α : Type} (stop : Nat) :
    Except SyntaxError (α × List Token) → Except SyntaxError α
  | .error e => .error e
  | .ok (a, []) => .ok a
  | .ok (_, ts) => .error (unexpected .nothing stop ts)

end Parse

/-- **The statement that a text writes**, or the first place where it writes
none. -/
def Statement.parse (text : String) : Except SyntaxError Statement := do
  let stop := byteLength text.toList
  Parse.whole stop (Parse.statement stop (← tokens text))

/-- The triple that a text writes, which may have variables in it. -/
def TriplePattern.parse (text : String) : Except SyntaxError TriplePattern := do
  let stop := byteLength text.toList
  Parse.whole stop (Parse.triple stop (← tokens text))

end TripleScript
