import TripleScript.Proofs.Statement.Places
import TripleScript.Proofs.Statement.Readers

/-!
# Where a text is refused

A text that is not a statement is refused at one place. If it has no tokens, the
place is that of a character, of an escape or of a quoted text without an end,
and what is shown is that it lies within the text and cuts no character
(`within_of_tokensFrom`). If it has tokens, the place is that of the first one
with which no statement can begin (`refused_where_impossible`), or the end of the
text if there is none.

Which lexemes begin a statement is said by the texts that are read as statements
(`BeginsStatement`), so the order in which the parser looks at them does not
enter. That a row which can be completed begins a statement needs a text with
these lexemes, and there is one because a text that has been split could spell
them (`Spellable.exists_spells`).
-/

namespace TripleScript

open Text

/-! ## Texts that do not split -/

section Within

variable {text front w cs : List Char} {start pos stop : ℕ} {e : SyntaxError}

/-- A stretch that begins behind a front part and takes the bytes of what
follows it. -/
theorem within_of_append (front w back : List Char) (htext : text = front ++ (w ++ back))
    (hstart : byteLength front = start) (hstop : start + byteLength w = stop) :
    Span.Within ⟨start, stop⟩ text := by
  subst htext hstart hstop
  exact Span.within_append front w back

/-- A quoted text that is not read is refused within the text. -/
theorem within_of_quotedFrom {value : List Char} (h : quotedFrom start value pos cs = .error e)
    (htext : text = front ++ (w ++ cs)) (hstart : byteLength front = start)
    (hpos : start + byteLength w = pos) : e.span.Within text := by
  have hslash : '\\'.utf8Size = 1 := rfl
  fun_induction quotedFrom start value pos cs generalizing w with
  | case1 value pos =>
    cases h
    exact within_of_append front w [] htext hstart hpos
  | case2 => cases h
  | case3 value pos =>
    cases h
    refine within_of_append front (w ++ ['\\']) [] (by simpa using htext) hstart ?_
    rw [byteLength_append, ← Nat.add_assoc, hpos]
    rfl
  | case4 value pos c cs hc ih =>
    refine ih (w := w ++ ['\\', c]) h (by simpa using htext) ?_
    rw [byteLength_append, ← Nat.add_assoc, hpos, byteLength_cons, byteLength_cons, hslash,
      utf8Size_of_needsEscape hc, byteLength_nil]
  | case5 value pos c cs =>
    -- the error is that of the escape, not of the quoted text
    cases h
    refine within_of_append (front ++ w) ['\\', c] cs (by simpa using htext) ?_ ?_
    · rw [byteLength_append, hstart, hpos]
    · rw [byteLength_cons, byteLength_cons, hslash, byteLength_nil, Nat.add_zero, Nat.add_assoc]
  | case6 value pos c cs _ _ _ ih =>
    refine ih (w := w ++ [c]) h (by simpa using htext) ?_
    rw [byteLength_append, ← Nat.add_assoc, hpos, byteLength_cons, byteLength_nil, Nat.add_zero]

/-- What is not read as a token is refused within the text. -/
theorem within_of_nextLexeme {c : Char} (h : nextLexeme pos c cs = .error e)
    (htext : text = front ++ c :: cs) (hpos : byteLength front = pos) : e.span.Within text := by
  unfold nextLexeme at h
  split_ifs at h
  any_goals cases h
  · next hquote =>
    subst hquote
    split at h
    · cases h
    · next hread =>
      cases h
      exact within_of_quotedFrom (w := ['"']) hread htext hpos rfl
  · refine within_of_append front [c] cs htext hpos ?_
    rw [byteLength_cons, byteLength_nil, Nat.add_zero]

/-- **A text without tokens is refused within the text.** -/
theorem within_of_tokensFrom {read : List Token} (h : tokensFrom read pos cs = .error e)
    (front : List Char) (htext : text = front ++ cs) (hpos : byteLength front = pos) :
    e.span.Within text := by
  fun_induction tokensFrom read pos cs generalizing front with
  | case1 => cases h
  | case2 read pos c cs hc ih =>
    refine ih h (front ++ [c]) (by simpa using htext) ?_
    rw [byteLength_append, hpos, byteLength_cons, byteLength_nil, Nat.add_zero]
  | case3 read pos c cs _ l stop rest hread ih =>
    obtain ⟨w, hw, -, -⟩ := spelling_of_nextLexeme hread
    have hbytes := byteLength_of_nextLexeme hread
    rw [hw, byteLength_append] at hbytes
    refine ih h (front ++ w) (by rw [htext, hw, List.append_assoc]) ?_
    rw [byteLength_append]
    omega
  | case4 read pos c cs _ e' hread =>
    cases h
    exact within_of_nextLexeme hread htext hpos

end Within

/-! ## Texts that are not statements -/

/-- **The beginning of a statement**: lexemes that some text which is read as a
statement begins with. -/
def BeginsStatement (ls : List Lexeme) : Prop :=
  ∃ text ts st, tokens text = .ok ts ∧ Statement.parse text = .ok st ∧ ls <+: lexemes ts

/-- What begins the beginning of a statement begins a statement. -/
theorem BeginsStatement.of_prefix {ls ls' : List Lexeme} (h : BeginsStatement ls')
    (hls : ls <+: ls') : BeginsStatement ls := by
  obtain ⟨text, ts, st, hts, hst, hprefix⟩ := h
  exact ⟨text, ts, st, hts, hst, hls.trans hprefix⟩

/-- **Lexemes that can be spelled are those of a text**, with a blank behind each
of them. -/
theorem Spellable.exists_spells {ls : List Lexeme} (h : Spellable ls) : ∃ text, Spells text ls := by
  induction ls with
  | nil => exact ⟨_, .empty⟩
  | cons l ls ih =>
    obtain ⟨⟨w, hw⟩, hls⟩ := List.forall_mem_cons.mp h
    obtain ⟨text, htext⟩ := ih hls
    have hfirst : Spells (String.ofList w) [l] :=
      Spelling.spells (by rwa [String.toList_ofList])
    exact ⟨_, hfirst.append htext.blank (apart_blank text)⟩

/-- The lexemes of a text can be spelled. -/
theorem spellable_of_tokens {text : String} {ts : List Token} (h : tokens text = .ok ts) :
    Spellable (lexemes ts) :=
  (lexemes_tokens_iff.mp ⟨ts, h, rfl⟩).exists_spelling

/-- What can be completed to what the grammar derives begins a statement. -/
theorem beginsStatement_of_begins {ls : List Lexeme} (hls : Spellable ls)
    (h : Parse.Begins {ls | ∃ st, Statement.DerivedFrom st ls} ls) : BeginsStatement ls := by
  obtain ⟨more, hmore, st, hst⟩ := h
  obtain ⟨text, htext⟩ := Spellable.exists_spells (List.forall_mem_append.mpr ⟨hls, hmore⟩)
  obtain ⟨st', hst', -⟩ := map_eq_ok_iff.mp (parse_of_derivedFrom htext.splits hst)
  obtain ⟨ts, hts, heq⟩ := lexemes_tokens_iff.mpr htext.splits
  exact ⟨text, ts, st', hts, hst', heq ▸ List.prefix_append ls more⟩

/-- A part with nothing behind it is refused where the part is, or where something
follows it. -/
theorem Parse.whole_eq_error_iff {α : Type} {stop : ℕ} {r : Except SyntaxError (α × List Token)}
    {e : SyntaxError} :
    Parse.whole stop r = .error e ↔ r = .error e
      ∨ ∃ a t rest, r = .ok (a, t :: rest) ∧ e = Parse.unexpected .nothing stop (t :: rest) := by
  rcases r with e' | ⟨a, _ | ⟨t, rest⟩⟩
  · simp [Parse.whole]
  · simp [Parse.whole]
  · simp [Parse.whole, eq_comm]

/-- A row begins a statement only if it can be read, and read as a whole. -/
theorem BeginsStatement.exists_statement {ls : List Lexeme} (h : BeginsStatement ls) :
    ∃ stop front rest st, lexemes front = ls
      ∧ Parse.statement stop (front ++ rest) = .ok (st, []) := by
  obtain ⟨text, ts, st, hts, hst, hprefix⟩ := h
  obtain ⟨more, hmore⟩ := hprefix
  obtain ⟨front, rest, rfl, hfront, -⟩ := List.map_eq_append_iff.mp hmore.symm
  obtain ⟨ts', hts', hwhole⟩ := bind_eq_ok_iff.mp hst
  rw [hts] at hts'
  cases hts'
  exact ⟨_, front, rest, st, hfront, Parse.whole_eq_ok_iff.mp hwhole⟩

/-- What is read up to a token that follows, or refused there, begins no
statement together with it. -/
theorem Parse.Settled.not_beginsStatement {ok : Bool} {before rest : List Token} {t : Token}
    (h : Parse.Settled ok (fun _ : Unit => Parse.statement) before (t :: rest)) :
    ¬BeginsStatement (lexemes (before ++ [t])) := by
  intro hbegins
  obtain ⟨stop, front, rest', st, hfront, hread⟩ := hbegins.exists_statement
  obtain ⟨before', one, rfl, hbefore, hone⟩ := Parse.exists_append_of_lexemes hfront
  obtain ⟨t', _, rfl, ht', hnil⟩ := List.map_eq_cons_iff.mp hone
  obtain rfl := List.map_eq_nil_iff.mp hnil
  have hends : Parse.Ends ok (t' :: rest') (Parse.statement stop (before' ++ t' :: rest')) :=
    h () stop before' (t' :: rest') hbefore (congrArg some ht')
  rw [List.append_cons, hread] at hends
  cases hends

/-- **Tokens that are not a statement are refused at the end of what begins
one.** -/
theorem exists_place_of_error {stop : ℕ} {ts : List Token} {e : SyntaxError}
    (hts : Spellable (lexemes ts))
    (h : Parse.whole stop (Parse.statement stop ts) = .error e) :
    ∃ before after, ts = before ++ after ∧ e.span = Parse.placeOf stop after
      ∧ BeginsStatement (lexemes before)
      ∧ ∀ t rest, after = t :: rest → ¬BeginsStatement (lexemes (before ++ [t])) := by
  obtain ⟨before, after, ok, rfl, hplace, hbegins, hsettled⟩ : ∃ before after ok,
      ts = before ++ after ∧ e.span = Parse.placeOf stop after
        ∧ Parse.Begins {ls | ∃ st, Statement.DerivedFrom st ls} (lexemes before)
        ∧ Parse.Settled ok (fun _ : Unit => Parse.statement) before after := by
    rcases Parse.whole_eq_error_iff.mp h with herror | ⟨st, t, rest, hread, rfl⟩
    · obtain ⟨before, after, hsplit⟩ := Parse.reads_statement.of_error (i := ()) herror
      exact ⟨before, after, false, hsplit⟩
    · -- a statement is read, and it goes on
      obtain ⟨front, rfl, hfront, hsettled⟩ := Parse.reads_statement.of_ok (i := ()) hread
      refine ⟨front, t :: rest, true, rfl, rfl, ⟨[], nofun, ?_⟩, hsettled⟩
      rwa [List.append_nil]
  rw [lexemes, List.map_append] at hts
  refine ⟨before, after, rfl, hplace,
    beginsStatement_of_begins (List.forall_mem_append.mp hts).1 hbegins, ?_⟩
  rintro t rest rfl
  exact hsettled.not_beginsStatement

/-- **What begins a statement and is none goes on**, by some lexeme. -/
theorem BeginsStatement.exists_append {text : String} {ts : List Token} {e : SyntaxError}
    (hbegins : BeginsStatement (lexemes ts)) (hts : tokens text = .ok ts)
    (h : Statement.parse text = .error e) : ∃ l, BeginsStatement (lexemes ts ++ [l]) := by
  obtain ⟨text', ts', st, hts', hst, more, hmore⟩ := hbegins
  cases more with
  | nil =>
    -- the other text has the same lexemes, and is read
    obtain ⟨ls, hls, hderived⟩ := exists_derivedFrom_of_parse hst
    have hls' := lexemes_tokens_iff.mp ⟨ts', hts', rfl⟩
    rw [List.append_nil] at hmore
    rw [hls.unique hls', ← hmore] at hderived
    obtain ⟨st', hst', -⟩ :=
      map_eq_ok_iff.mp (parse_of_derivedFrom (lexemes_tokens_iff.mp ⟨ts, hts, rfl⟩) hderived)
    cases h.symm.trans hst'
  | cons l more =>
    refine ⟨l, text', ts', st, hts', hst, more, ?_⟩
    rw [List.append_assoc]
    exact hmore

/-- **The parts that begin a statement** are those up to the first token with
which none begins. -/
theorem beginsStatement_iff_prefix {before after front : List Token} {t : Token}
    (hbegins : BeginsStatement (lexemes before))
    (hnot : ¬BeginsStatement (lexemes (before ++ [t]))) (hfront : front <+: before ++ t :: after) :
    BeginsStatement (lexemes front) ↔ front <+: before := by
  refine ⟨fun hviable => ?_, fun hle => hbegins.of_prefix (hle.map Token.lexeme)⟩
  rcases List.prefix_or_prefix_of_prefix hfront (List.prefix_append before (t :: after))
    with hle | ⟨more, rfl⟩
  · exact hle
  · cases more with
    | nil => rw [List.append_nil]
    | cons u more =>
      -- the part goes on with the token at which nothing begins
      obtain ⟨rfl, -⟩ :=
        List.cons_prefix_cons.mp ((List.prefix_append_right_inj before).mp hfront)
      refine absurd (hviable.of_prefix ?_) hnot
      rw [List.append_cons before u more]
      exact (List.prefix_append _ more).map Token.lexeme

/-- The place in front of some tokens of a text lies within it. -/
theorem within_placeOf {text : String} {before after : List Token}
    (h : tokens text = .ok (before ++ after)) :
    (Parse.placeOf (byteLength text.toList) after).Within text.toList := by
  cases after with
  | nil => exact within_of_append text.toList [] [] (by simp) rfl rfl
  | cons t after =>
    rw [List.append_cons] at h
    obtain ⟨-, -, hwithin, -⟩ := exists_tokens_slice h
    exact hwithin

/-- **A text is refused at the first impossible token.** The place of the error
lies within the text and cuts no character. If the text has tokens, it is the
place of the first one with which they no longer begin a statement. Or all of
them begin one, but some lexeme is missing; then it is the end of the text. -/
theorem refused_where_impossible {text : String} {e : SyntaxError}
    (h : Statement.parse text = .error e) :
    e.span.Within text.toList
      ∧ ∀ ts, tokens text = .ok ts →
        (∃ before t after, ts = before ++ t :: after ∧ e.span = t.span
            ∧ ∀ front, front <+: ts → (BeginsStatement (lexemes front) ↔ front <+: before))
          ∨ (∃ l, BeginsStatement (lexemes ts ++ [l]))
            ∧ e.span = ⟨byteLength text.toList, byteLength text.toList⟩ := by
  rcases bind_eq_error_iff.mp h with herror | ⟨ts, hts, herror⟩
  · refine ⟨within_of_tokensFrom herror [] rfl rfl, fun ts hts => ?_⟩
    rw [herror] at hts
    cases hts
  · obtain ⟨before, after, rfl, hplace, hbegins, hnot⟩ :=
      exists_place_of_error (spellable_of_tokens hts) herror
    refine ⟨hplace ▸ within_placeOf hts, fun ts hts' => ?_⟩
    cases hts.symm.trans hts'
    cases after with
    | nil =>
      rw [List.append_nil] at hts ⊢
      exact Or.inr ⟨hbegins.exists_append hts h, hplace⟩
    | cons t after =>
      exact Or.inl ⟨before, t, after, rfl, hplace,
        fun front => beginsStatement_iff_prefix hbegins (hnot t after rfl)⟩

/-- A triple of two terms is refused at its closing parenthesis, which takes the
byte behind 25 others: up to there it may still become a triple. -/
theorem refused_where_impossible_of_closeParen :
    let text := "SELECT ?x WHERE (\"é\", ?x)"
    ∃ e ts, Statement.parse text = .error e ∧ tokens text = .ok ts
      ∧ e.span = ⟨25, 26⟩ ∧ e.span.Within text.toList
      ∧ BeginsStatement (lexemes (ts.take 7)) ∧ ¬BeginsStatement (lexemes (ts.take 8)) := by
  intro text
  let ts : List Token := [⟨.word "SELECT", ⟨0, 6⟩⟩, ⟨.var "x", ⟨7, 9⟩⟩, ⟨.word "WHERE", ⟨10, 15⟩⟩,
    ⟨.openParen, ⟨16, 17⟩⟩, ⟨.quoted "é", ⟨17, 21⟩⟩, ⟨.comma, ⟨21, 22⟩⟩, ⟨.var "x", ⟨23, 25⟩⟩,
    ⟨.closeParen, ⟨25, 26⟩⟩]
  have hparse : Statement.parse text
      = .error ⟨.unexpected .comma (some .closeParen), ⟨25, 26⟩⟩ := by decide +kernel
  have hts : tokens text = .ok ts := by decide +kernel
  obtain ⟨hwithin, hplace⟩ := refused_where_impossible hparse
  refine ⟨_, ts, hparse, hts, rfl, hwithin, ?_⟩
  rcases hplace ts hts with ⟨before, t, after, heq, hspan, hviable⟩ | ⟨-, hspan⟩
  · -- only one of the tokens has that place
    have honly : ∀ n : Fin 8, ts[n].span = ⟨25, 26⟩ → n = 7 := by decide
    have hlength : before.length < 8 := by
      have hlength : ts.length = 8 := rfl
      rw [heq, List.length_append, List.length_cons] at hlength
      omega
    have hget : ts[before.length] = t := List.getElem_of_append heq rfl
    have hseven : before.length = 7 :=
      congrArg Fin.val (honly ⟨_, hlength⟩ ((congrArg Token.span hget).trans hspan.symm))
    have hbefore : before <+: ts := heq ▸ List.prefix_append before (t :: after)
    rw [List.prefix_iff_eq_take, hseven] at hbefore
    refine ⟨(hviable _ (List.take_prefix 7 ts)).mpr (hbefore ▸ List.prefix_rfl), fun hbegins => ?_⟩
    have hlonger := ((hviable _ (List.take_prefix 8 ts)).mp hbegins).length_le
    rw [hseven] at hlonger
    exact absurd hlonger (by decide)
  · exact absurd hspan (by decide +kernel)

end TripleScript
