import TripleScript.Proofs.Statement.Places

/-!
# Gaps between tokens

A text may be cut where blanks stand between two of its tokens: what is read
behind the blanks is what would be read of that part alone, only so many bytes
later (`tokens_across_gap`). It takes three things to see this. Reading a token
does not look further than the first character that cannot go on with it, so the
tokens of the front part are read as they would be at the end of a text
(`Placed.tokensFrom_append`). Blanks are passed over one by one
(`tokensFrom_blanks`). And where a text begins goes into places only, those of
errors included (`tokensFrom_moved`).

Blanks are not always needed. No token goes over a **seam**, which is a place
where the character in front cannot go on or the one behind cannot be gone on
with, and there a gap may be empty. `Respaced` says of two texts that they differ
in their gaps only, and `gaps_do_not_matter` that such texts are the same
statement.
-/

namespace TripleScript

open Text

/-! ## Later places -/

/-- The stretch so many bytes later. -/
def Span.moved (d : ℕ) (s : Span) : Span := ⟨s.start + d, s.stop + d⟩

/-- The token so many bytes later. -/
def Token.moved (d : ℕ) (t : Token) : Token := ⟨t.lexeme, t.span.moved d⟩

/-- What is wrong, so many bytes later. -/
def SyntaxError.moved (d : ℕ) (e : SyntaxError) : SyntaxError := ⟨e.fault, e.span.moved d⟩

section Moved

variable {α : Type}

/-- What comes of reading if the text begins so many bytes later, where `f` moves
what has been read. -/
def readMoved (d : ℕ) (f : α → α) (r : Except SyntaxError α) : Except SyntaxError α :=
  (r.map f).mapError (SyntaxError.moved d)

@[simp] theorem readMoved_ok (d : ℕ) (f : α → α) (a : α) :
    readMoved d f (.ok a) = .ok (f a) := rfl

@[simp] theorem readMoved_error (d : ℕ) (f : α → α) (e : SyntaxError) :
    readMoved d f (.error e) = .error (e.moved d) := rfl

end Moved

/-- A quoted text that begins later ends later. -/
theorem quotedFrom_moved (d start : ℕ) (value : List Char) (pos : ℕ) (cs : List Char) :
    quotedFrom (start + d) value (pos + d) cs
      = readMoved d (fun r => (r.1, r.2.1 + d, r.2.2)) (quotedFrom start value pos cs) := by
  fun_induction quotedFrom start value pos cs with
  | case1 value pos => rfl
  | case2 value pos rest => simp only [quotedFrom, readMoved_ok, Nat.add_right_comm]
  | case3 value pos =>
    simp only [quotedFrom, readMoved_error, SyntaxError.moved, Span.moved, Nat.add_right_comm]
  | case4 value pos c rest hc ih =>
    rw [quotedFrom, if_pos hc, Nat.add_right_comm, ih]
  | case5 value pos c rest hc =>
    rw [quotedFrom, if_neg hc, readMoved_error]
    simp only [SyntaxError.moved, Span.moved, Nat.add_right_comm]
  | case6 value pos c rest quote last backslash ih =>
    rw [quotedFrom, Nat.add_right_comm, ih] <;> assumption

/-- **A token that begins later ends later**, and says the same. -/
theorem nextLexeme_moved (d pos : ℕ) (c : Char) (cs : List Char) :
    nextLexeme (pos + d) c cs
      = readMoved d (fun r => (r.1, r.2.1 + d, r.2.2)) (nextLexeme pos c cs) := by
  have hadd : ∀ n, pos + d + n = pos + n + d := fun n => Nat.add_right_comm pos d n
  unfold nextLexeme
  split_ifs
  · rw [hadd]; rfl
  · rw [hadd]; rfl
  · rw [hadd]; rfl
  · rw [hadd]; rfl
  · -- a name ends so many bytes behind its question mark
    rw [hadd]
    show Except.ok _ = Except.ok _
    rw [Nat.add_right_comm (pos + 1) d]
  · rw [hadd, quotedFrom_moved]
    cases quotedFrom pos [] (pos + 1) cs <;> rfl
  · show Except.ok _ = Except.ok _
    rw [hadd]
  · rw [hadd]; rfl

/-- **Where a text begins goes into places only.** -/
theorem tokensFrom_moved (d : ℕ) (read : List Token) (pos : ℕ) (cs : List Char) :
    tokensFrom (read.map (Token.moved d)) (pos + d) cs
      = readMoved d (List.map (Token.moved d)) (tokensFrom read pos cs) := by
  fun_induction tokensFrom read pos cs with
  | case1 read pos => rw [tokensFrom, readMoved_ok, List.map_reverse]
  | case2 read pos c cs hc ih => rw [tokensFrom, if_pos hc, Nat.add_right_comm, ih]
  | case3 read pos c cs hc l stop rest hread ih =>
    have hmoved := nextLexeme_moved d pos c cs
    rw [hread] at hmoved
    rw [tokensFrom, if_neg hc, ← ih]
    split
    · next hread' =>
      cases hread'.symm.trans hmoved
      rfl
    · next hread' => cases hread'.symm.trans hmoved
  | case4 read pos c cs hc e hread =>
    have hmoved := nextLexeme_moved d pos c cs
    rw [hread] at hmoved
    rw [tokensFrom, if_neg hc]
    split
    · next hread' => cases hread'.symm.trans hmoved
    · next hread' =>
      cases hread'.symm.trans hmoved
      rfl

/-! ## Seams -/

/-- **A seam**: no token goes over it, since the character in front of it cannot
go on or the one behind it is not bare. -/
def Text.Seam (front back : List Char) : Prop :=
  ∀ c ∈ front.getLast?, BareCharacter c ∨ c = '?' → ∀ d ∈ back.head?, ¬BareCharacter d

/-- A text of blanks. -/
def Text.Blanks (w : List Char) : Prop := ∀ c ∈ w, isBlank c = true

instance : DecidablePred Text.Blanks := fun w =>
  decidable_of_iff (w.all isBlank = true) List.all_eq_true

/-- A blank is not a bare character. -/
theorem not_bareCharacter_of_isBlank {c : Char} (h : isBlank c = true) : ¬BareCharacter c := by
  intro hbare
  obtain ⟨h₁, h₂⟩ := toNat_of_bareCharacter hbare
  rw [isBlank_eq_false h₁ (le_trans h₂ (by decide))] at h
  exact absurd h Bool.false_ne_true

section Seam

variable {front w cs : List Char} {pos : ℕ} {ts : List Token}

/-- What is in front of the front part does not matter. -/
theorem Text.Seam.of_append (h : Seam (w ++ front) cs) : Seam front cs := by
  intro c hc
  exact h c (by rw [List.getLast?_append, Option.mem_def.mp hc]; rfl)

/-- Blanks behind a text make a seam. -/
theorem Text.Blanks.seam (h : Blanks w) (hne : w ≠ []) (front cs : List Char) :
    Seam front (w ++ cs) := by
  obtain ⟨c, w, rfl⟩ := List.exists_cons_of_ne_nil hne
  rintro _ - - d ⟨⟩
  exact not_bareCharacter_of_isBlank (h c List.mem_cons_self)

/-- A spelling ends at a seam. -/
theorem Spelling.endsBefore_of_seam {l : Lexeme} (h : Spelling w l) (hseam : Seam w cs) :
    l.EndsBefore cs := by
  intro hl
  have hlast : ∀ {v : List Char}, v ≠ [] → (∀ c ∈ v, BareCharacter c) →
      ∃ c ∈ v.getLast?, BareCharacter c := by
    intro v hne hbare
    exact ⟨v.getLast hne, List.getLast?_eq_some_getLast hne, hbare _ (List.getLast_mem hne)⟩
  cases h with
  | word nonempty bare =>
    obtain ⟨c, hc, hbare⟩ := hlast nonempty bare
    exact hseam c hc (Or.inl hbare)
  | @var w nonempty bare =>
    obtain ⟨c, hc, hbare⟩ := hlast nonempty bare
    exact hseam.of_append (w := ['?']) c hc (Or.inl hbare)
  | wildcard => exact hseam '?' rfl (Or.inr rfl)
  | _ => cases hl

/-- **Tokens in front of a seam** are read, whatever stands behind it. -/
theorem Placed.tokensFrom_append (h : Placed pos front ts) (hseam : Seam front cs)
    (read : List Token) :
    tokensFrom read pos (front ++ cs)
      = tokensFrom (ts.reverse ++ read) (pos + byteLength front) cs := by
  induction h generalizing read with
  | done => rfl
  | @blank pos c front ts hc _ ih =>
    rw [List.cons_append, tokensFrom, if_pos hc, byteLength_cons, ← Nat.add_assoc]
    exact ih (hseam.of_append (w := [c])) read
  | @token pos w front l ts hw hend _ ih =>
    have hends : l.EndsBefore (front ++ cs) := by
      cases front with
      | nil => exact hw.endsBefore_of_seam (by rwa [List.append_nil] at hseam)
      | cons c front => exact hend
    rw [List.append_assoc, tokensFrom_of_spelling hw hends, ih hseam.of_append, List.reverse_cons,
      List.append_assoc, byteLength_append, ← Nat.add_assoc]
    rfl

/-- **Blanks are passed over.** -/
theorem tokensFrom_blanks (h : Blanks w) (read : List Token) (pos : ℕ) (cs : List Char) :
    tokensFrom read pos (w ++ cs) = tokensFrom read (pos + byteLength w) cs := by
  induction w generalizing pos with
  | nil => rfl
  | cons c w ih =>
    obtain ⟨hc, hw⟩ := List.forall_mem_cons.mp h
    rw [List.cons_append, tokensFrom, if_pos hc, ih hw, byteLength_cons, Nat.add_assoc]

end Seam

/-! ## Gaps -/

/-- What is read of a text that follows some tokens and begins at byte `d`. -/
def readBehind (ts : List Token) (d : ℕ) (r : Except SyntaxError (List Token)) :
    Except SyntaxError (List Token) :=
  (readMoved d (List.map (Token.moved d)) r).map (ts ++ ·)

/-- **A gap** behind a text: blanks, which may be missing only at a seam. -/
structure Text.Gap (front w back : List Char) : Prop where
  blanks : Blanks w
  parted : w ≠ [] ∨ Seam front back

/-- A blank or more is a gap anywhere. -/
theorem Text.Blanks.gap {w : List Char} (h : Blanks w) (hne : w ≠ []) (front back : List Char) :
    Gap front w back :=
  ⟨h, Or.inl hne⟩

/-- There is no token over a gap. -/
theorem Text.Gap.seam {front w cs : List Char} (h : Gap front w cs) : Seam front (w ++ cs) := by
  by_cases hne : w = []
  · rcases h.parted with hne' | hseam
    · exact absurd hne hne'
    · rwa [hne]
  · exact h.blanks.seam hne front cs

/-- **Texts are read on either side of a gap.** -/
theorem tokensFrom_gap {front w cs : List Char} {ts : List Token} (h : Placed 0 front ts)
    (hgap : Gap front w cs) :
    tokensFrom [] 0 (front ++ (w ++ cs))
      = readBehind ts (byteLength (front ++ w)) (tokensFrom [] 0 cs) := by
  rw [h.tokensFrom_append hgap.seam, tokensFrom_blanks hgap.blanks, Nat.add_assoc, ← byteLength_append,
    List.append_nil, tokensFrom_eq, List.reverse_reverse, readBehind]
  have hmoved := tokensFrom_moved (byteLength (front ++ w)) [] 0 cs
  rw [List.map_nil, Nat.zero_add] at hmoved
  rw [← hmoved, Nat.zero_add]

/-- **Texts that differ in their gaps only.** They agree piece by piece, each
piece having tokens of its own, and between the pieces there are blanks, as many
and of whatever kind on either side. -/
inductive Text.Respaced : List Char → List Char → Prop where
  /-- The last piece. -/
  | last (cs : List Char) : Respaced cs cs
  /-- A piece with gaps behind it. -/
  | gap {piece w w' cs cs' : List Char} {ts : List Token} (whole : Placed 0 piece ts)
    (hgap : Gap piece w cs) (hgap' : Gap piece w' cs') :
    Respaced cs cs' → Respaced (piece ++ (w ++ cs)) (piece ++ (w' ++ cs'))

/-- Tokens behind others say what they say. -/
theorem lexemes_append_moved (ts us : List Token) (d : ℕ) :
    lexemes (ts ++ us.map (Token.moved d)) = lexemes ts ++ lexemes us := by
  rw [lexemes, List.map_append, List.map_map]
  rfl

/-- **A text splits on either side of a gap.** -/
theorem splits_gap_iff {front w cs : List Char} {ts : List Token} {ls' : List Lexeme}
    (h : Placed 0 front ts) (hgap : Gap front w cs) :
    Splits (front ++ (w ++ cs)) ls' ↔ ∃ ls, Splits cs ls ∧ ls' = lexemes ts ++ ls := by
  have hiff : ∀ (cs : List Char) (ls : List Lexeme),
      Splits cs ls ↔ ∃ us, tokensFrom [] 0 cs = .ok us ∧ lexemes us = ls := by
    intro cs ls
    have htext := @lexemes_tokens_iff (String.ofList cs) ls
    rw [tokens, String.toList_ofList] at htext
    exact htext.symm
  rw [hiff, tokensFrom_gap h hgap]
  cases hread : tokensFrom [] 0 cs with
  | error e =>
    refine iff_of_false nofun ?_
    rintro ⟨ls, hls, -⟩
    obtain ⟨us, hus, -⟩ := (hiff cs ls).mp hls
    cases hread.symm.trans hus
  | ok us =>
    constructor
    · rintro ⟨_, ⟨⟩, rfl⟩
      exact ⟨lexemes us, (hiff cs _).mpr ⟨us, hread, rfl⟩, lexemes_append_moved ts us _⟩
    · rintro ⟨ls, hls, rfl⟩
      obtain ⟨us', hus', rfl⟩ := (hiff cs ls).mp hls
      cases hread.symm.trans hus'
      exact ⟨_, rfl, lexemes_append_moved ts us _⟩

/-- **Gaps do not say anything.** -/
theorem Text.Respaced.splits_iff {cs cs' : List Char} (h : Respaced cs cs') (ls : List Lexeme) :
    Splits cs ls ↔ Splits cs' ls := by
  induction h generalizing ls with
  | last => rfl
  | gap whole hgap hgap' _ ih =>
    rw [splits_gap_iff whole hgap, splits_gap_iff whole hgap']
    simp only [ih]

/-- **Texts with the same lexemes are the same statement**, places aside, or none
of them is one. -/
theorem parse_eq_of_splits {text text' : String}
    (h : ∀ ls, Splits text.toList ls ↔ Splits text'.toList ls) :
    (Statement.parse text).toOption.map Statement.unplaced
      = (Statement.parse text').toOption.map Statement.unplaced := by
  have hiff : ∀ {text : String} {st : Statement},
      (Statement.parse text).toOption.map Statement.unplaced = some st
        ↔ ∃! ls, Splits text.toList ls ∧ st.DerivedFrom ls := by
    intro text st
    rw [← parse_iff_derivedFrom]
    cases Statement.parse text <;> simp [Except.toOption, Except.map]
  ext st
  rw [hiff, hiff]
  simp only [h]

/-- **Gaps between tokens do not matter.** Where a text has tokens, a blank or
more and any text may follow it. If that text has tokens, they follow those of
the first, so many bytes later; if it has none, the same is wrong with the whole,
so many bytes later. And texts that differ in their gaps only, at any number of
places, are the same statement, the places of its triples aside, or no statement
either of them. -/
theorem gaps_do_not_matter :
    (∀ (a w b : String) (ts : List Token), tokens a = .ok ts → w ≠ "" → Blanks w.toList →
      (∀ us, tokens b = .ok us →
        tokens (a ++ w ++ b)
          = .ok (ts ++ us.map (Token.moved (byteLength (a ++ w).toList))))
        ∧ ∀ e, tokens b = .error e →
          tokens (a ++ w ++ b) = .error (e.moved (byteLength (a ++ w).toList)))
    ∧ ∀ text text' : String, Respaced text.toList text'.toList →
      (Statement.parse text).toOption.map Statement.unplaced
        = (Statement.parse text').toOption.map Statement.unplaced := by
  refine ⟨fun a w b ts hts hne hblanks => ?_, fun text text' h => ?_⟩
  · have hgap : Gap a.toList w.toList b.toList :=
      hblanks.gap (mt String.toList_eq_nil_iff.mp hne) _ _
    have hread : tokens (a ++ w ++ b)
        = readBehind ts (byteLength (a ++ w).toList) (tokens b) := by
      rw [tokens, String.toList_append, String.toList_append, List.append_assoc,
        tokensFrom_gap (tokens_eq_ok_iff.mp hts) hgap]
      rfl
    refine ⟨fun us hus => ?_, fun e he => ?_⟩
    · rw [hread, hus]
      rfl
    · rw [hread, he]
      rfl
  · exact parse_eq_of_splits h.splits_iff

/-- Behind a quoted text with a quote in it, an em space and a line feed: a text
with tokens, and one whose quoted text does not end. And two texts that differ in
three gaps, one of which is empty in the first. -/
theorem gaps_do_not_matter_behind_quote :
    let a := "INSERT (\"a \\\" b\""
    let w := "\u2003\n"
    let ts : List Token := [⟨.word "INSERT", ⟨0, 6⟩⟩, ⟨.openParen, ⟨7, 8⟩⟩,
      ⟨.quoted "a \" b", ⟨8, 16⟩⟩]
    let text := "SELECT ?x WHERE(?x, p, ?)"
    let text' := "SELECT\t?x \u00a0WHERE (?x, p, ?)"
    tokens a = .ok ts
      ∧ tokens (a ++ w ++ ", é)") = .error ⟨.unexpectedCharacter 'é', ⟨22, 24⟩⟩
      ∧ tokens (a ++ w ++ ", e)")
        = .ok (ts ++ [⟨.comma, ⟨20, 21⟩⟩, ⟨.word "e", ⟨22, 23⟩⟩, ⟨.closeParen, ⟨23, 24⟩⟩])
      ∧ Respaced text.toList text'.toList
      ∧ (Statement.parse text').toOption.map Statement.unplaced
        = some (.select ⟨false, .vars ["x"], [⟨.var "x", .node ⟨"p"⟩, .wildcard, default⟩], none⟩) := by
  intro a w ts text text'
  obtain ⟨hbehind, hsame⟩ := gaps_do_not_matter
  have hts : tokens a = .ok ts := by decide +kernel
  have hw : Blanks w.toList := by decide +kernel
  obtain ⟨hok, -⟩ := hbehind a w ", e)" ts hts (by decide +kernel) hw
  obtain ⟨-, herror⟩ := hbehind a w ", é)" ts hts (by decide +kernel) hw
  have hbytes : byteLength (a ++ w).toList = 20 := by decide +kernel
  rw [hbytes] at hok herror
  have hrespaced : Respaced text.toList text'.toList := by
    have hword : ∀ (piece : String) (ts : List Token), tokens piece = .ok ts →
        Placed 0 piece.toList ts := fun _ _ => tokens_eq_ok_iff.mp
    have hselect := hword "SELECT" [⟨.word "SELECT", ⟨0, 6⟩⟩] (by decide +kernel)
    have hx := hword "?x" [⟨.var "x", ⟨0, 2⟩⟩] (by decide +kernel)
    have hwhere := hword "WHERE" [⟨.word "WHERE", ⟨0, 5⟩⟩] (by decide +kernel)
    have hone : ∀ {piece cs : List Char} {c : Char} {w : List Char}, Blanks (c :: w) →
        Gap piece (c :: w) cs := fun h => h.gap (List.cons_ne_nil _ _) _ _
    have hseam : Seam "WHERE".toList "(?x, p, ?)".toList := by
      rintro _ - - d ⟨⟩
      decide
    have htext : text.toList = "SELECT".toList ++ ([' '] ++ ("?x".toList ++ ([' ']
        ++ ("WHERE".toList ++ ([] ++ "(?x, p, ?)".toList))))) := by decide +kernel
    have htext' : text'.toList = "SELECT".toList ++ (['\t'] ++ ("?x".toList ++ ([' ', '\u00a0']
        ++ ("WHERE".toList ++ ([' '] ++ "(?x, p, ?)".toList))))) := by decide +kernel
    rw [htext, htext']
    refine .gap hselect (hone (by decide)) (hone (by decide)) ?_
    refine .gap hx (hone (by decide)) (hone (by decide)) ?_
    exact .gap hwhere ⟨nofun, Or.inr hseam⟩ (hone (by decide)) (.last _)
  refine ⟨hts, ?_, ?_, hrespaced, ?_⟩
  · exact herror ⟨.unexpectedCharacter 'é', ⟨2, 4⟩⟩ (by decide +kernel)
  · exact hok [⟨.comma, ⟨0, 1⟩⟩, ⟨.word "e", ⟨2, 3⟩⟩, ⟨.closeParen, ⟨3, 4⟩⟩] (by decide +kernel)
  · rw [← hsame text text' hrespaced]
    decide +kernel

end TripleScript
