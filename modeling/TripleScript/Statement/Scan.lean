import TripleScript.Text.Blank
import TripleScript.Text.Bytes
import TripleScript.Statement.Error

/-!
# From text to tokens

Tokens are read from the left, each as long as it can be, with any number of
blanks around them. `nextLexeme` reads one token at a character that is not
blank, and `tokens` reads them all.

Reading a token leaves a shorter text (`length_of_nextLexeme`), which is why
reading ends, and `tokensFrom_eq` says that the tokens already read are kept
in front of those to come.
-/

namespace TripleScript

open Text

/-- The rest of a quoted text from behind its opening quote: its value, the
byte after its closing quote and the text that follows. The quote opened at
byte `start`; `value` has been read, last character first, and the text to
be read begins at byte `pos`. -/
def quotedFrom (start : Nat) (value : List Char) (pos : Nat) :
    List Char → Except SyntaxError (List Char × Nat × List Char)
  | [] => .error ⟨.unterminated, ⟨start, pos⟩⟩
  | '"' :: rest => .ok (value.reverse, pos + 1, rest)
  | ['\\'] => .error ⟨.unterminated, ⟨start, pos + 1⟩⟩
  | '\\' :: c :: rest =>
    if Node.needsEscape c then quotedFrom start (c :: value) (pos + 2) rest
    else .error ⟨.unsupportedEscape c, ⟨pos, pos + 1 + c.utf8Size⟩⟩
  | c :: rest => quotedFrom start (c :: value) (pos + c.utf8Size) rest

/-- The lexeme that begins with the character `c` at byte `pos`, the byte
after it and the text that follows. -/
def nextLexeme (pos : Nat) (c : Char) (rest : List Char) :
    Except SyntaxError (Lexeme × Nat × List Char) :=
  if c = '(' then .ok (.openParen, pos + 1, rest)
  else if c = ')' then .ok (.closeParen, pos + 1, rest)
  else if c = ',' then .ok (.comma, pos + 1, rest)
  else if c = '*' then .ok (.star, pos + 1, rest)
  else if c = '?' then
    let name := rest.takeWhile isBare
    .ok (if name = [] then .wildcard else .var (String.ofList name),
      pos + 1 + byteLength name, rest.dropWhile isBare)
  else if c = '"' then
    match quotedFrom pos [] (pos + 1) rest with
    | .ok (value, stop, rest) => .ok (.quoted (String.ofList value), stop, rest)
    | .error e => .error e
  else if isBare c then
    let text := c :: rest.takeWhile isBare
    .ok (.word (String.ofList text), pos + byteLength text, rest.dropWhile isBare)
  else .error ⟨.unexpectedCharacter c, ⟨pos, pos + c.utf8Size⟩⟩

/-- A quoted text leaves at most what it was read from. -/
theorem length_of_quotedFrom {start pos stop : Nat}
    {value read cs rest : List Char}
    (h : quotedFrom start value pos cs = .ok (read, stop, rest)) :
    rest.length ≤ cs.length := by
  fun_induction quotedFrom start value pos cs <;> grind

/-- **Reading a token leaves at most what follows its first character.** -/
theorem length_of_nextLexeme {pos stop : Nat} {c : Char} {lexeme : Lexeme}
    {cs rest : List Char} (h : nextLexeme pos c cs = .ok (lexeme, stop, rest)) :
    rest.length ≤ cs.length := by
  have drop : (cs.dropWhile isBare).length ≤ cs.length :=
    (List.dropWhile_suffix isBare).length_le
  have quoted (stop : Nat) (read rest : List Char) :=
    @length_of_quotedFrom pos (pos + 1) stop [] read cs rest
  unfold nextLexeme at h
  grind

/-- The tokens of a text that begins at byte `pos`, after the tokens `read`,
last token first. -/
def tokensFrom (read : List Token) (pos : Nat) (cs : List Char) :
    Except SyntaxError (List Token) :=
  match cs with
  | [] => .ok read.reverse
  | c :: cs =>
    if isBlank c then tokensFrom read (pos + c.utf8Size) cs
    else
      match _h : nextLexeme pos c cs with
      | .ok (lexeme, stop, rest) => tokensFrom (⟨lexeme, ⟨pos, stop⟩⟩ :: read) stop rest
      | .error e => .error e
termination_by cs.length
decreasing_by
  · simp
  · have := length_of_nextLexeme _h
    simp only [List.length_cons]
    omega

/-- **The tokens of a text.** -/
def tokens (text : String) : Except SyntaxError (List Token) :=
  tokensFrom [] 0 text.toList

/-- Tokens already read stand in front of those to come. -/
theorem tokensFrom_eq (read : List Token) (pos : Nat) (cs : List Char) :
    tokensFrom read pos cs = (tokensFrom [] pos cs).map (read.reverse ++ ·) := by
  induction h : cs.length using Nat.strongRecOn generalizing read pos cs with
  | _ n ih =>
    subst h
    cases cs with
    | nil => simp [tokensFrom, Except.map]
    | cons c cs =>
      rw [tokensFrom, tokensFrom]
      split
      · exact ih _ (by simp) _ _ _ rfl
      · split
        · next lexeme stop rest hn =>
          have shorter : rest.length < (c :: cs).length := by
            have := length_of_nextLexeme hn
            simp only [List.length_cons]
            omega
          rw [ih _ shorter _ _ _ rfl, ih _ shorter [_] _ _ rfl]
          cases tokensFrom [] stop rest <;> simp [Except.map]
        · rfl

end TripleScript
