import Mathlib.Data.List.TakeWhile
import TripleScript.Statement.Scan

/-!
# How a text splits into lexemes

A lexeme is spelled in one way up to its escapes: `Spelling` says how, without
reading anything. A text that is not blank everywhere begins, behind its
blanks, with the spelling of a lexeme, and where it begins with several – each
front part of a word is a word – the longest one counts: `LongestMatch`. A
text splits into lexemes if it goes on like this to its end (`Splits`).

The tokens of a text are the lexemes into which it splits. One token is
`nextLexeme_of_spelling`, which reads a spelling back as long as what follows
does not go on with it, and `spelling_of_nextLexeme`, its converse. That
nothing goes on with a spelling is the same as that it is the longest one
(`longestMatch_iff`), because every spelling extends to one that nothing goes
on with, and the reader would find that one instead. `lexemes_tokens_iff` is the
whole text; that there is only one way to split it, `Splits.unique`, follows
from there being only one result of reading it.
-/

namespace TripleScript

open Text

/-! ## Spellings -/

/-- **The characters of words and names**: the letters and digits of ASCII, and
seven signs. -/
def BareCharacter (c : Char) : Prop :=
  c.isAlpha = true ∨ c.isDigit = true ∨ c ∈ ['_', '-', '.', ':', '/', '#', '@']

theorem isBare_iff {c : Char} : isBare c = true ↔ BareCharacter c := by
  simp only [isBare, BareCharacter, Char.isAlphanum, Bool.or_eq_true, or_assoc,
    List.contains_iff_mem]

instance : DecidablePred BareCharacter := fun _ => decidable_of_iff _ isBare_iff

/-- **What stands between the quotes of a quoted text**, and the text it stands
for: a quote and a backslash have a backslash in front, and everything else
stands for itself. -/
inductive Quotation : List Char → List Char → Prop where
  /-- Nothing. -/
  | nil : Quotation [] []
  /-- A character that stands for itself. -/
  | plain {c : Char} {w v : List Char} (quote : c ≠ '"') (backslash : c ≠ '\\') :
    Quotation w v → Quotation (c :: w) (c :: v)
  /-- The two escapes. -/
  | quote {w v : List Char} : Quotation w v → Quotation ('\\' :: '"' :: w) ('"' :: v)
  | backslash {w v : List Char} : Quotation w v → Quotation ('\\' :: '\\' :: w) ('\\' :: v)

/-- **How a lexeme is spelled.** -/
inductive Spelling : List Char → Lexeme → Prop where
  /-- A word is one bare character or more. -/
  | word {w : List Char} (nonempty : w ≠ []) (bare : ∀ c ∈ w, BareCharacter c) :
    Spelling w (.word (String.ofList w))
  /-- A quoted text may be empty. -/
  | quoted {w v : List Char} (inside : Quotation w v) :
    Spelling ('"' :: (w ++ ['"'])) (.quoted (String.ofList v))
  /-- A name may not: a question mark without one is a wildcard. -/
  | var {w : List Char} (nonempty : w ≠ []) (bare : ∀ c ∈ w, BareCharacter c) :
    Spelling ('?' :: w) (.var (String.ofList w))
  | wildcard : Spelling ['?'] .wildcard
  | openParen : Spelling ['('] .openParen
  | closeParen : Spelling [')'] .closeParen
  | comma : Spelling [','] .comma
  | star : Spelling ['*'] .star

/-- **The longest lexeme that a text begins with.** -/
structure LongestMatch (cs w : List Char) (l : Lexeme) : Prop where
  /-- It is spelled so. -/
  spelling : Spelling w l
  /-- The text begins with it. -/
  begins : w <+: cs
  /-- And with no longer one. -/
  longest : ∀ w' l', Spelling w' l' → w' <+: cs → w'.length ≤ w.length

/-- **A text splits into lexemes**: it consists of their spellings, each the
longest match where it stands, and of blanks. -/
inductive Splits : List Char → List Lexeme → Prop where
  /-- The end of the text. -/
  | done : Splits [] []
  /-- A blank belongs to no lexeme. -/
  | blank {c : Char} {cs : List Char} {ls : List Lexeme} (h : isBlank c = true) :
    Splits cs ls → Splits (c :: cs) ls
  /-- Whatever is not blank begins the longest lexeme there. -/
  | lexeme {w cs : List Char} {l : Lexeme} {ls : List Lexeme}
    (h : LongestMatch (w ++ cs) w l) : Splits cs ls → Splits (w ++ cs) (l :: ls)

/-! ## What can go on -/

/-- The lexemes that a further bare character would change: words, names, and
the question mark that may become a name. -/
def Lexeme.isExtensible : Lexeme → Bool
  | word _ | var _ | wildcard => true
  | _ => false

/-- A lexeme ends in front of a text that does not go on with it. -/
def Lexeme.EndsBefore (l : Lexeme) (cs : List Char) : Prop :=
  l.isExtensible = true → ∀ c ∈ cs.head?, ¬BareCharacter c

theorem Lexeme.endsBefore_nil (l : Lexeme) : l.EndsBefore [] := fun _ _ hc => nomatch hc

/-- A lexeme that cannot be extended ends anywhere. -/
theorem Lexeme.EndsBefore.of_not_isExtensible {l : Lexeme} {cs : List Char}
    (h : l.isExtensible = false) : l.EndsBefore cs :=
  fun hl => absurd hl (by rw [h]; exact Bool.false_ne_true)

/-- Bare characters are printable and belong to ASCII. -/
theorem toNat_of_bareCharacter {c : Char} (h : BareCharacter c) :
    33 ≤ c.toNat ∧ c.toNat ≤ 122 := by
  rcases h with h | h | h
  · rcases Bool.or_eq_true_iff.mp h with h | h
    · have hupper : 65 ≤ c.toNat ∧ c.toNat ≤ 90 := of_decide_eq_true h
      omega
    · have hlower : 97 ≤ c.toNat ∧ c.toNat ≤ 122 :=
        (Bool.and_eq_true_iff.mp h).imp of_decide_eq_true of_decide_eq_true
      omega
  · have hdigit : 48 ≤ c.toNat ∧ c.toNat ≤ 57 :=
      (Bool.and_eq_true_iff.mp h).imp of_decide_eq_true of_decide_eq_true
    omega
  · simp only [List.mem_cons, List.not_mem_nil, or_false] at h
    rcases h with rfl | rfl | rfl | rfl | rfl | rfl | rfl <;> decide

/-- No character between the exclamation mark and the tilde is blank. -/
theorem isBlank_eq_false {c : Char} (h₁ : 33 ≤ c.toNat) (h₂ : c.toNat ≤ 126) :
    isBlank c = false := by
  simp only [isBlank, blankRanges, List.any_cons, List.any_nil, Bool.or_false,
    Bool.or_eq_false_iff, Bool.and_eq_false_iff, decide_eq_false_iff_not]
  omega

/-- The characters that are lexemes or begin one without being bare. -/
theorem BareCharacter.ne_mark {c : Char} (h : BareCharacter c) :
    c ∉ ['(', ')', ',', '*', '?', '"'] := by
  intro hmem
  simp only [List.mem_cons, List.not_mem_nil, or_false] at hmem
  rcases hmem with rfl | rfl | rfl | rfl | rfl | rfl <;> revert h <;> decide

/-- A spelling begins with a character that is not blank. -/
theorem Spelling.exists_cons {w : List Char} {l : Lexeme} (h : Spelling w l) :
    ∃ c cs, w = c :: cs ∧ isBlank c = false := by
  cases h with
  | word nonempty bare =>
    obtain ⟨c, w, rfl⟩ := List.exists_cons_of_ne_nil nonempty
    obtain ⟨h₁, h₂⟩ := toNat_of_bareCharacter (bare c List.mem_cons_self)
    exact ⟨c, w, rfl, isBlank_eq_false h₁ (by omega)⟩
  | _ => exact ⟨_, _, rfl, by decide⟩

/-! ## Reading one token -/

section Bare

variable {w cs : List Char}

/-- What is taken of bare characters with others behind them. -/
theorem takeWhile_isBare_append (bare : ∀ c ∈ w, BareCharacter c)
    (hcs : ∀ c ∈ cs.head?, ¬BareCharacter c) : (w ++ cs).takeWhile isBare = w := by
  rw [List.takeWhile_append_of_pos fun c hc => isBare_iff.mpr (bare c hc)]
  cases cs with
  | nil => simp
  | cons c cs =>
    rw [List.takeWhile_cons_of_neg fun h => hcs c rfl (isBare_iff.mp h), List.append_nil]

/-- What is left behind them. -/
theorem dropWhile_isBare_append (bare : ∀ c ∈ w, BareCharacter c)
    (hcs : ∀ c ∈ cs.head?, ¬BareCharacter c) : (w ++ cs).dropWhile isBare = cs := by
  rw [List.dropWhile_append_of_pos fun c hc => isBare_iff.mpr (bare c hc)]
  cases cs with
  | nil => rfl
  | cons c cs => rw [List.dropWhile_cons_of_neg fun h => hcs c rfl (isBare_iff.mp h)]

theorem bare_takeWhile (cs : List Char) : ∀ c ∈ cs.takeWhile isBare, BareCharacter c :=
  fun _ hc => isBare_iff.mp (List.mem_takeWhile_imp hc)

theorem not_bare_head?_dropWhile (cs : List Char) :
    ∀ c ∈ (cs.dropWhile isBare).head?, ¬BareCharacter c := by
  intro c hc hbare
  have h := List.head?_dropWhile_not isBare cs
  rw [Option.mem_def.mp hc] at h
  exact absurd (isBare_iff.mpr hbare) (by simpa using h)

end Bare

/-- A quoted text is read to its closing quote. -/
theorem quotedFrom_of_quotation {w v : List Char} (h : Quotation w v) (start : ℕ)
    (value : List Char) (pos : ℕ) (cs : List Char) :
    ∃ stop, quotedFrom start value pos (w ++ '"' :: cs) = .ok (value.reverse ++ v, stop, cs) := by
  induction h generalizing value pos with
  | nil => exact ⟨pos + 1, by simp [quotedFrom]⟩
  | @plain c w v quote backslash _ ih =>
    obtain ⟨stop, hstop⟩ := ih (c :: value) (pos + c.utf8Size)
    refine ⟨stop, ?_⟩
    rw [List.cons_append, quotedFrom, hstop] <;> simp_all
  | quote _ ih =>
    obtain ⟨stop, hstop⟩ := ih ('"' :: value) (pos + 2)
    exact ⟨stop, by simpa [quotedFrom, Node.needsEscape] using hstop⟩
  | backslash _ ih =>
    obtain ⟨stop, hstop⟩ := ih ('\\' :: value) (pos + 2)
    exact ⟨stop, by simpa [quotedFrom, Node.needsEscape] using hstop⟩

/-- What is read as a quoted text stands between quotes. -/
theorem quotation_of_quotedFrom {start pos stop : ℕ} {value read cs rest : List Char}
    (h : quotedFrom start value pos cs = .ok (read, stop, rest)) :
    ∃ w v, cs = w ++ '"' :: rest ∧ Quotation w v ∧ read = value.reverse ++ v := by
  fun_induction quotedFrom start value pos cs with
  | case1 => cases h
  | case2 value pos rest' =>
    cases h
    exact ⟨[], [], rfl, .nil, (List.append_nil _).symm⟩
  | case3 => cases h
  | case4 value pos c cs hc ih =>
    obtain ⟨w, v, rfl, hw, rfl⟩ := ih h
    simp only [Node.needsEscape, Bool.or_eq_true, beq_iff_eq] at hc
    refine ⟨'\\' :: c :: w, c :: v, rfl, ?_, by simp⟩
    rcases hc with rfl | rfl
    · exact hw.quote
    · exact hw.backslash
  | case5 => cases h
  | case6 value pos c cs quote last backslash ih =>
    obtain ⟨w, v, rfl, hw, rfl⟩ := ih h
    -- a backslash with something behind it would have been read as an escape
    have hc : c ≠ '\\' := fun hc => by
      obtain ⟨d, ds, hd⟩ := List.exists_cons_of_ne_nil (List.append_ne_nil_of_right_ne_nil w
        (List.cons_ne_nil '"' rest))
      exact backslash d ds hc hd
    exact ⟨c :: w, c :: v, rfl, hw.plain quote hc, by simp⟩

section NextLexeme

variable {pos stop : ℕ} {c : Char} {cs rest w : List Char} {l : Lexeme}

/-- A bare character begins a word. -/
theorem nextLexeme_bare (h : BareCharacter c) (pos : ℕ) (cs : List Char) :
    nextLexeme pos c cs
      = .ok (.word (String.ofList (c :: cs.takeWhile isBare)),
        pos + byteLength (c :: cs.takeWhile isBare), cs.dropWhile isBare) := by
  have hmark := h.ne_mark
  simp only [List.mem_cons, List.not_mem_nil, or_false, not_or] at hmark
  obtain ⟨h₁, h₂, h₃, h₄, h₅, h₆⟩ := hmark
  rw [nextLexeme, if_neg h₁, if_neg h₂, if_neg h₃, if_neg h₄, if_neg h₅, if_neg h₆,
    if_pos (isBare_iff.mpr h)]

/-- A question mark begins a name or is a wildcard. -/
theorem nextLexeme_question (pos : ℕ) (cs : List Char) :
    nextLexeme pos '?' cs
      = .ok (if cs.takeWhile isBare = [] then .wildcard
          else .var (String.ofList (cs.takeWhile isBare)),
        pos + 1 + byteLength (cs.takeWhile isBare), cs.dropWhile isBare) := rfl

/-- A quote begins a quoted text. -/
theorem nextLexeme_quote (pos : ℕ) (cs : List Char) :
    nextLexeme pos '"' cs
      = match quotedFrom pos [] (pos + 1) cs with
        | .ok (value, stop, rest) => .ok (.quoted (String.ofList value), stop, rest)
        | .error e => .error e := rfl

/-- **A spelling is read back**, if what follows does not go on with it. -/
theorem nextLexeme_of_spelling (h : Spelling w l) (hend : l.EndsBefore rest) (pos : ℕ) :
    ∃ c cs stop, w ++ rest = c :: cs ∧ nextLexeme pos c cs = .ok (l, stop, rest) := by
  cases h with
  | word nonempty bare =>
    obtain ⟨c, w, rfl⟩ := List.exists_cons_of_ne_nil nonempty
    obtain ⟨hc, hw⟩ := List.forall_mem_cons.mp bare
    refine ⟨c, w ++ rest, pos + byteLength (c :: w), rfl, ?_⟩
    rw [nextLexeme_bare hc, takeWhile_isBare_append hw (hend rfl),
      dropWhile_isBare_append hw (hend rfl)]
  | @quoted w v inside =>
    obtain ⟨stop, hstop⟩ := quotedFrom_of_quotation inside pos [] (pos + 1) rest
    refine ⟨'"', w ++ '"' :: rest, stop, by simp, ?_⟩
    rw [nextLexeme_quote, hstop]
    rfl
  | @var w nonempty bare =>
    refine ⟨'?', w ++ rest, pos + 1 + byteLength w, rfl, ?_⟩
    rw [nextLexeme_question, takeWhile_isBare_append bare (hend rfl),
      dropWhile_isBare_append bare (hend rfl), if_neg nonempty]
  | wildcard =>
    have htake := takeWhile_isBare_append (w := []) (by simp) (hend rfl)
    have hdrop := dropWhile_isBare_append (w := []) (by simp) (hend rfl)
    rw [List.nil_append] at htake hdrop
    refine ⟨'?', rest, pos + 1, rfl, ?_⟩
    rw [nextLexeme_question, htake, hdrop, if_pos rfl]
    rfl
  | _ => exact ⟨_, rest, pos + 1, rfl, rfl⟩

/-- **What is read is a spelling**, and what follows does not go on with it. -/
theorem spelling_of_nextLexeme (h : nextLexeme pos c cs = .ok (l, stop, rest)) :
    ∃ w, c :: cs = w ++ rest ∧ Spelling w l ∧ l.EndsBefore rest := by
  unfold nextLexeme at h
  split at h
  case isTrue hc => cases h; exact ⟨[c], rfl, hc ▸ .openParen, .of_not_isExtensible rfl⟩
  case isFalse =>
  split at h
  case isTrue hc => cases h; exact ⟨[c], rfl, hc ▸ .closeParen, .of_not_isExtensible rfl⟩
  case isFalse =>
  split at h
  case isTrue hc => cases h; exact ⟨[c], rfl, hc ▸ .comma, .of_not_isExtensible rfl⟩
  case isFalse =>
  split at h
  case isTrue hc => cases h; exact ⟨[c], rfl, hc ▸ .star, .of_not_isExtensible rfl⟩
  case isFalse =>
  split at h
  case isTrue hc =>
    cases h
    subst hc
    refine ⟨'?' :: cs.takeWhile isBare, ?_, ?_, fun _ => not_bare_head?_dropWhile cs⟩
    · rw [List.cons_append, List.takeWhile_append_dropWhile]
    · split
      case isTrue hname => exact hname ▸ .wildcard
      case isFalse hname => exact .var hname (bare_takeWhile cs)
  case isFalse =>
  split at h
  case isTrue hc =>
    subst hc
    cases hq : quotedFrom pos [] (pos + 1) cs with
    | error e => rw [hq] at h; cases h
    | ok r =>
      obtain ⟨read, stop', rest'⟩ := r
      rw [hq] at h
      cases h
      obtain ⟨w, v, rfl, hw, rfl⟩ := quotation_of_quotedFrom hq
      exact ⟨'"' :: (w ++ ['"']), by simp, .quoted hw, .of_not_isExtensible rfl⟩
  case isFalse =>
  split at h
  case isTrue hc =>
    cases h
    refine ⟨c :: cs.takeWhile isBare, ?_, .word (List.cons_ne_nil _ _) ?_,
      fun _ => not_bare_head?_dropWhile cs⟩
    · rw [List.cons_append, List.takeWhile_append_dropWhile]
    · exact List.forall_mem_cons.mpr ⟨isBare_iff.mp hc, bare_takeWhile cs⟩
  case isFalse => cases h

end NextLexeme

/-! ## The longest match -/

section LongestMatch

variable {w w' cs cs' : List Char} {l l' : Lexeme}

/-- **A text begins with one spelling** that it does not go on with: reading
has one result. -/
theorem Spelling.append_inj (h : Spelling w l) (h' : Spelling w' l') (hend : l.EndsBefore cs)
    (hend' : l'.EndsBefore cs') (heq : w ++ cs = w' ++ cs') : l = l' ∧ cs = cs' := by
  obtain ⟨c, ds, _, hcons, hread⟩ := nextLexeme_of_spelling h hend 0
  obtain ⟨_, _, _, hcons', hread'⟩ := nextLexeme_of_spelling h' hend' 0
  rw [hcons, hcons', List.cons.injEq] at heq
  obtain ⟨rfl, rfl⟩ := heq
  rw [hread] at hread'
  cases hread'
  exact ⟨rfl, rfl⟩

/-- A spelling belongs to one lexeme. -/
theorem Spelling.unique (h : Spelling w l) (h' : Spelling w l') : l = l' :=
  (h.append_inj h' l.endsBefore_nil l'.endsBefore_nil rfl).1

/-- **A spelling that a text begins with extends to one that the text does not
go on with.** -/
theorem Spelling.exists_endsBefore (h : Spelling w l) (cs : List Char) :
    ∃ v l' rest, cs = v ++ rest ∧ Spelling (w ++ v) l' ∧ l'.EndsBefore rest := by
  have hcs := (List.takeWhile_append_dropWhile (p := isBare) (l := cs)).symm
  have hmore := bare_takeWhile cs
  have hend : ∀ l : Lexeme, l.EndsBefore (cs.dropWhile isBare) := fun _ _ =>
    not_bare_head?_dropWhile cs
  cases h with
  | word nonempty bare =>
    exact ⟨_, _, _, hcs, .word (List.append_ne_nil_of_left_ne_nil nonempty _)
      (List.forall_mem_append.mpr ⟨bare, hmore⟩), hend _⟩
  | var nonempty bare =>
    exact ⟨_, _, _, hcs, .var (List.append_ne_nil_of_left_ne_nil nonempty _)
      (List.forall_mem_append.mpr ⟨bare, hmore⟩), hend _⟩
  | wildcard =>
    by_cases hname : cs.takeWhile isBare = []
    · exact ⟨_, .wildcard, _, hcs, by rw [hname]; exact .wildcard, hend _⟩
    · exact ⟨_, _, _, hcs, .var hname hmore, hend _⟩
  | quoted inside =>
    exact ⟨[], _, cs, rfl, by simpa using Spelling.quoted inside, .of_not_isExtensible rfl⟩
  | openParen => exact ⟨[], _, cs, rfl, .openParen, .of_not_isExtensible rfl⟩
  | closeParen => exact ⟨[], _, cs, rfl, .closeParen, .of_not_isExtensible rfl⟩
  | comma => exact ⟨[], _, cs, rfl, .comma, .of_not_isExtensible rfl⟩
  | star => exact ⟨[], _, cs, rfl, .star, .of_not_isExtensible rfl⟩

/-- **A lexeme is the longest match where nothing goes on with it.** -/
theorem longestMatch_iff :
    LongestMatch (w ++ cs) w l ↔ Spelling w l ∧ l.EndsBefore cs := by
  constructor
  · rintro ⟨hw, -, longest⟩
    obtain ⟨v, l', rest, rfl, hv, hend⟩ := hw.exists_endsBefore cs
    -- the extension is no longer than the longest match, so it is the match
    have hlen := longest _ _ hv ⟨rest, List.append_assoc w v rest⟩
    rw [List.length_append] at hlen
    obtain rfl : v = [] := List.eq_nil_of_length_eq_zero (by omega)
    rw [List.append_nil] at hv
    exact ⟨hw, hw.unique hv ▸ hend⟩
  · rintro ⟨hw, hend⟩
    refine ⟨hw, List.prefix_append w cs, ?_⟩
    rintro w' l' hw' ⟨t, ht⟩
    -- the other spelling extends to one that the text does not go on with either
    obtain ⟨v, l'', rest, rfl, hv, hend'⟩ := hw'.exists_endsBefore t
    rw [← List.append_assoc] at ht
    obtain ⟨-, rfl⟩ := hv.append_inj hw hend' hend ht
    rw [← List.append_cancel_right ht, List.length_append]
    exact Nat.le_add_right _ _

end LongestMatch

/-! ## Reading all tokens -/

/-- What some tokens say. -/
abbrev lexemes (ts : List Token) : List Lexeme := ts.map Token.lexeme

/-- **A text that splits into lexemes is read.** -/
theorem tokensFrom_of_splits {cs : List Char} {ls : List Lexeme} (h : Splits cs ls)
    (read : List Token) (pos : ℕ) :
    ∃ ts, tokensFrom read pos cs = .ok ts ∧ lexemes ts = lexemes read.reverse ++ ls := by
  induction h generalizing read pos with
  | done => exact ⟨read.reverse, by rw [tokensFrom], (List.append_nil _).symm⟩
  | @blank c cs ls hc _ ih =>
    rw [tokensFrom, if_pos hc]
    exact ih read (pos + c.utf8Size)
  | @lexeme w cs l ls h _ ih =>
    obtain ⟨hw, hend⟩ := longestMatch_iff.mp h
    obtain ⟨c, ds, stop, hcons, hread⟩ := nextLexeme_of_spelling hw hend pos
    obtain ⟨d, w', rfl, hd⟩ := hw.exists_cons
    obtain ⟨rfl, -⟩ := List.cons.inj hcons
    obtain ⟨ts, hts, hls⟩ := ih (⟨l, ⟨pos, stop⟩⟩ :: read) stop
    refine ⟨ts, ?_, by simpa using hls⟩
    rw [hcons, tokensFrom, if_neg (by rw [hd]; exact Bool.false_ne_true)]
    split
    · next lexeme stop' rest hread' =>
      rw [hread] at hread'
      cases hread'
      exact hts
    · next e hread' =>
      rw [hread] at hread'
      cases hread'

/-- **A text that is read splits into lexemes**, those of its tokens. -/
theorem splits_of_tokensFrom {read ts : List Token} {pos : ℕ} {cs : List Char}
    (h : tokensFrom read pos cs = .ok ts) :
    ∃ ls, Splits cs ls ∧ lexemes ts = lexemes read.reverse ++ ls := by
  fun_induction tokensFrom read pos cs with
  | case1 read pos =>
    cases h
    exact ⟨[], .done, (List.append_nil _).symm⟩
  | case2 read pos c cs hc ih =>
    obtain ⟨ls, hls, heq⟩ := ih h
    exact ⟨ls, .blank hc hls, heq⟩
  | case3 read pos c cs _ l stop rest hread ih =>
    obtain ⟨ls, hls, heq⟩ := ih h
    obtain ⟨w, hw, hspell, hend⟩ := spelling_of_nextLexeme hread
    refine ⟨l :: ls, hw ▸ .lexeme (longestMatch_iff.mpr ⟨hspell, hend⟩) hls, ?_⟩
    simpa using heq
  | case4 => cases h

/-- **The tokens of a text say the lexemes into which it splits.** -/
theorem lexemes_tokens_iff {text : String} {ls : List Lexeme} :
    (∃ ts, tokens text = .ok ts ∧ lexemes ts = ls) ↔ Splits text.toList ls := by
  constructor
  · rintro ⟨ts, hts, rfl⟩
    obtain ⟨ls, hls, heq⟩ := splits_of_tokensFrom hts
    rw [heq]
    exact hls
  · intro h
    exact tokensFrom_of_splits h [] 0

/-- **A text splits into lexemes in one way at most.** -/
theorem Splits.unique {cs : List Char} {ls ls' : List Lexeme} (h : Splits cs ls)
    (h' : Splits cs ls') : ls = ls' := by
  obtain ⟨ts, hts, heq⟩ := tokensFrom_of_splits h [] 0
  obtain ⟨ts', hts', heq'⟩ := tokensFrom_of_splits h' [] 0
  rw [hts] at hts'
  cases hts'
  exact heq.symm.trans heq'

end TripleScript
