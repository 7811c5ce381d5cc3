import TripleScript.Proofs.Statement.Grammar

/-!
# Where tokens and triples stand

A token carries the stretch of the text that spells it, a triple the stretch
from its opening to its closing parenthesis, both counted in bytes. The ends
of these stretches are computed in a different way for each kind of token,
and none of the ways counts what has been read. What they have in common is
that the bytes up to the end of a token and the bytes left behind it are all
the bytes there were (`byteLength_of_nextLexeme`).

A text *places* tokens (`Placed`) if it consists of their spellings, each at
the bytes of its place, and of blanks. Reading a text finds the tokens that
it places, and these only (`tokens_eq_ok_iff`). A row of tokens out of the
middle then has a stretch of the text to itself, which places the same tokens
nearer to its beginning (`Placed.exists_slice`); that is the whole argument
for reading one token, or the seven tokens of a triple, out of their stretch.
-/

namespace TripleScript

open Text

/-! ## Places in a text -/

/-- **A place between two characters** of a text, or at one of its ends. -/
def Text.IsBoundary (cs : List Char) (pos : ℕ) : Prop :=
  ∃ front, front <+: cs ∧ byteLength front = pos

/-- **A stretch of whole characters** of a text, which may be empty. -/
structure Span.Within (s : Span) (cs : List Char) : Prop where
  /-- It does not end before it begins. -/
  start_le : s.start ≤ s.stop
  /-- It ends where the text does, or earlier. -/
  stop_le : s.stop ≤ byteLength cs
  /-- It begins between two characters. -/
  start : IsBoundary cs s.start
  /-- And ends so. -/
  stop : IsBoundary cs s.stop

/-- What stands between a front part and a back part is a stretch. -/
theorem Span.within_append (front w back : List Char) :
    Span.Within ⟨byteLength front, byteLength front + byteLength w⟩ (front ++ (w ++ back)) where
  start_le := Nat.le_add_right _ _
  stop_le := by simp only [byteLength_append]; omega
  start := ⟨front, List.prefix_append _ _, rfl⟩
  stop := ⟨front ++ w, by rw [← List.append_assoc]; exact List.prefix_append _ _,
    byteLength_append front w⟩

/-! ## What is read and what is left -/

section Bytes

variable {start pos stop : ℕ} {c : Char} {cs rest : List Char}

/-- What has to be escaped takes one byte. -/
theorem utf8Size_of_needsEscape (h : Node.needsEscape c = true) : c.utf8Size = 1 := by
  simp only [Node.needsEscape, Bool.or_eq_true, beq_iff_eq] at h
  rcases h with rfl | rfl <;> rfl

/-- A quoted text and what follows it take all the bytes there are. -/
theorem byteLength_of_quotedFrom {value read : List Char}
    (h : quotedFrom start value pos cs = .ok (read, stop, rest)) :
    stop + byteLength rest = pos + byteLength cs := by
  fun_induction quotedFrom start value pos cs with
  | case1 => cases h
  | case2 value pos rest' =>
    cases h
    have hquote : '"'.utf8Size = 1 := rfl
    rw [byteLength_cons, hquote, Nat.add_assoc]
  | case3 => cases h
  | case4 value pos c cs hc ih =>
    have hslash : '\\'.utf8Size = 1 := rfl
    rw [ih h, byteLength_cons, byteLength_cons, hslash, utf8Size_of_needsEscape hc]
    omega
  | case5 => cases h
  | case6 value pos c cs _ _ _ ih =>
    rw [ih h, byteLength_cons, Nat.add_assoc]

/-- **A token and what follows it** take all the bytes there are. -/
theorem byteLength_of_nextLexeme {l : Lexeme} (h : nextLexeme pos c cs = .ok (l, stop, rest)) :
    stop + byteLength rest = pos + byteLength (c :: cs) := by
  -- the bare characters at the front and the others share the bytes
  have hbare : byteLength (cs.takeWhile isBare) + byteLength (cs.dropWhile isBare)
      = byteLength cs := by
    rw [← byteLength_append, List.takeWhile_append_dropWhile]
  rw [byteLength_cons]
  unfold nextLexeme at h
  split at h
  case isTrue hc => cases h; subst hc; exact Nat.add_assoc pos 1 _
  case isFalse =>
  split at h
  case isTrue hc => cases h; subst hc; exact Nat.add_assoc pos 1 _
  case isFalse =>
  split at h
  case isTrue hc => cases h; subst hc; exact Nat.add_assoc pos 1 _
  case isFalse =>
  split at h
  case isTrue hc => cases h; subst hc; exact Nat.add_assoc pos 1 _
  case isFalse =>
  split at h
  case isTrue hc =>
    cases h
    have hmark : c.utf8Size = 1 := by rw [hc]; rfl
    omega
  case isFalse =>
  split at h
  case isTrue hc =>
    have hquote : c.utf8Size = 1 := by rw [hc]; rfl
    split at h
    · next hread =>
      cases h
      have := byteLength_of_quotedFrom hread
      omega
    · cases h
  case isFalse =>
  split at h
  case isTrue =>
    cases h
    rw [byteLength_cons]
    omega
  case isFalse => cases h

end Bytes

/-! ## Texts that place tokens -/

/-- **A text places tokens**: from byte `pos` on it consists of their
spellings, each at the bytes of its place and not going on behind them, and of
blanks. -/
inductive Placed : ℕ → List Char → List Token → Prop where
  /-- The end of the text. -/
  | done {pos : ℕ} : Placed pos [] []
  /-- A blank belongs to no token. -/
  | blank {pos : ℕ} {c : Char} {cs : List Char} {ts : List Token} (h : isBlank c = true) :
    Placed (pos + c.utf8Size) cs ts → Placed pos (c :: cs) ts
  /-- A token takes the bytes of its spelling. -/
  | token {pos : ℕ} {w cs : List Char} {l : Lexeme} {ts : List Token} (spelling : Spelling w l)
    (ends : l.EndsBefore cs) : Placed (pos + byteLength w) cs ts →
      Placed pos (w ++ cs) (⟨l, ⟨pos, pos + byteLength w⟩⟩ :: ts)

section Placed

variable {pos : ℕ} {cs w : List Char} {ts before middle after : List Token}

/-- **A spelling at the front** is read as its token, which takes its bytes. -/
theorem tokensFrom_of_spelling {l : Lexeme} (hw : Spelling w l) (hend : l.EndsBefore cs)
    (read : List Token) (pos : ℕ) :
    tokensFrom read pos (w ++ cs)
      = tokensFrom (⟨l, ⟨pos, pos + byteLength w⟩⟩ :: read) (pos + byteLength w) cs := by
  obtain ⟨c, ds, stop, hcons, hread⟩ := nextLexeme_of_spelling hw hend pos
  obtain ⟨d, w', rfl, hd⟩ := hw.exists_cons
  obtain ⟨rfl, -⟩ := List.cons.inj hcons
  obtain rfl : stop = pos + byteLength (d :: w') := by
    have hbytes := byteLength_of_nextLexeme hread
    rw [← hcons, byteLength_append] at hbytes
    omega
  rw [hcons, tokensFrom, if_neg (by rw [hd]; exact Bool.false_ne_true)]
  split
  · next hread' =>
    rw [hread] at hread'
    cases hread'
    rfl
  · next hread' =>
    rw [hread] at hread'
    cases hread'

/-- Tokens that a text places are read. -/
theorem tokensFrom_of_placed (h : Placed pos cs ts) (read : List Token) :
    tokensFrom read pos cs = .ok (read.reverse ++ ts) := by
  induction h generalizing read with
  | done => rw [tokensFrom, List.append_nil]
  | blank hc _ ih =>
    rw [tokensFrom, if_pos hc]
    exact ih read
  | token hw hend _ ih =>
    rw [tokensFrom_of_spelling hw hend, ih, List.reverse_cons, List.append_assoc]
    rfl

/-- Tokens that are read are placed. -/
theorem placed_of_tokensFrom {read : List Token} (h : tokensFrom read pos cs = .ok ts) :
    ∃ us, Placed pos cs us ∧ ts = read.reverse ++ us := by
  fun_induction tokensFrom read pos cs with
  | case1 read pos =>
    cases h
    exact ⟨[], .done, (List.append_nil _).symm⟩
  | case2 read pos c cs hc ih =>
    obtain ⟨us, hus, rfl⟩ := ih h
    exact ⟨us, .blank hc hus, rfl⟩
  | case3 read pos c cs _ l stop rest hread ih =>
    obtain ⟨us, hus, rfl⟩ := ih h
    obtain ⟨w, hw, hspell, hend⟩ := spelling_of_nextLexeme hread
    obtain rfl : stop = pos + byteLength w := by
      have hbytes := byteLength_of_nextLexeme hread
      rw [hw, byteLength_append] at hbytes
      omega
    refine ⟨⟨l, ⟨pos, pos + byteLength w⟩⟩ :: us, hw ▸ .token hspell hend hus, ?_⟩
    rw [List.reverse_cons, List.append_assoc]
    rfl
  | case4 => cases h

/-- **The tokens of a text are those that it places.** -/
theorem tokens_eq_ok_iff {text : String} : tokens text = .ok ts ↔ Placed 0 text.toList ts := by
  constructor
  · intro h
    obtain ⟨us, hus, rfl⟩ := placed_of_tokensFrom h
    exact hus
  · intro h
    exact tokensFrom_of_placed h []

/-- A spelling takes a byte at least. -/
theorem Spelling.byteLength_pos {l : Lexeme} (h : Spelling w l) : 0 < byteLength w := by
  obtain ⟨c, w, rfl, -⟩ := h.exists_cons
  rw [byteLength_cons]
  exact Nat.add_pos_left c.utf8Size_pos _

/-- A token stands behind the place where the text begins, and is not empty. -/
theorem Placed.lt_of_mem (h : Placed pos cs ts) :
    ∀ t ∈ ts, pos ≤ t.span.start ∧ t.span.start < t.span.stop := by
  induction h with
  | done => exact nofun
  | blank _ _ ih => exact fun t ht => ⟨le_trans (Nat.le_add_right _ _) (ih t ht).1, (ih t ht).2⟩
  | token hw _ _ ih =>
    refine List.forall_mem_cons.mpr ⟨⟨le_rfl, ?_⟩, fun t ht => ?_⟩
    · exact Nat.lt_add_of_pos_right hw.byteLength_pos
    · exact ⟨le_trans (Nat.le_add_right _ _) (ih t ht).1, (ih t ht).2⟩

/-- **Tokens stand one behind the other.** -/
theorem Placed.pairwise (h : Placed pos cs ts) :
    ts.Pairwise fun t u => t.span.stop ≤ u.span.start := by
  induction h with
  | done => exact .nil
  | blank _ _ ih => exact ih
  | token _ _ hts ih => exact ih.cons fun t ht => (hts.lt_of_mem t ht).1

/-- **Whatever is not blank belongs to a token.** -/
theorem Placed.exists_mem_of_not_blank (h : Placed pos cs ts) {front back : List Char} {c : Char}
    (hcs : cs = front ++ c :: back) (hc : isBlank c = false) :
    ∃ t ∈ ts, t.span.start ≤ pos + byteLength front
      ∧ pos + byteLength front + c.utf8Size ≤ t.span.stop := by
  induction h generalizing front with
  | done => simp at hcs
  | @blank pos d cs ts hd _ ih =>
    cases front with
    | nil =>
      obtain ⟨rfl, -⟩ := List.cons.inj hcs
      rw [hd] at hc
      cases hc
    | cons e front =>
      obtain ⟨rfl, rfl⟩ := List.cons.inj hcs
      obtain ⟨t, ht, hstart, hstop⟩ := ih rfl
      exact ⟨t, ht, by rw [byteLength_cons]; omega, by rw [byteLength_cons]; omega⟩
  | @token pos w cs l ts _ _ _ ih =>
    rcases List.append_eq_append_iff.mp hcs with ⟨as, rfl, rfl⟩ | ⟨bs, rfl, hbs⟩
    · obtain ⟨t, ht, hstart, hstop⟩ := ih rfl
      refine ⟨t, List.mem_cons_of_mem _ ht, ?_, ?_⟩ <;> rw [byteLength_append] <;> omega
    · cases bs with
      | nil =>
        have hnext : cs = [] ++ c :: back := hbs.symm
        obtain ⟨t, ht, hstart, hstop⟩ := ih hnext
        rw [byteLength_nil, Nat.add_zero] at hstart hstop
        rw [List.append_nil] at hstart hstop
        exact ⟨t, List.mem_cons_of_mem _ ht, hstart, hstop⟩
      | cons e bs =>
        obtain ⟨rfl, -⟩ := List.cons.inj hbs
        refine ⟨_, List.mem_cons_self, Nat.le_add_right _ _, ?_⟩
        show pos + byteLength front + c.utf8Size ≤ pos + byteLength (front ++ c :: bs)
        rw [byteLength_append, byteLength_cons]
        omega

end Placed

/-! ## Out of the middle of a text -/

/-- The token as it stands in the text from byte `d` on. -/
def Token.since (d : ℕ) (t : Token) : Token :=
  ⟨t.lexeme, ⟨t.span.start - d, t.span.stop - d⟩⟩

section Slices

variable {pos d : ℕ} {cs : List Char} {ts before middle after : List Token} {a b t : Token}

/-- **What a text places does not depend on where it begins**, places aside. -/
theorem Placed.since (h : Placed pos cs ts) (hd : d ≤ pos) :
    Placed (pos - d) cs (ts.map (Token.since d)) := by
  induction h with
  | done => exact .done
  | blank hc _ ih =>
    have hts := ih (by omega)
    rw [Nat.sub_add_comm hd] at hts
    exact .blank hc hts
  | token hw hend _ ih =>
    have hts := ih (by omega)
    rw [Nat.sub_add_comm hd] at hts
    have htoken := Placed.token hw hend hts
    rw [← Nat.sub_add_comm hd] at htoken
    exact htoken

/-- Where the last of some tokens ends, or the place given if there is none. -/
def Token.endOf : ℕ → List Token → ℕ
  | pos, [] => pos
  | _, t :: ts => endOf t.span.stop ts

/-- **Tokens in front have a front part of the text to themselves**, which ends
with the last of them. -/
theorem Placed.exists_append (h : Placed pos cs (ts ++ after)) :
    ∃ front back, cs = front ++ back ∧ Placed pos front ts
      ∧ Placed (pos + byteLength front) back after
      ∧ pos + byteLength front = Token.endOf pos ts := by
  generalize hus : ts ++ after = us at h
  induction h generalizing ts with
  | done =>
    obtain ⟨rfl, rfl⟩ := List.append_eq_nil_iff.mp hus
    exact ⟨[], [], rfl, .done, .done, rfl⟩
  | @blank pos c cs us hc hrest ih =>
    cases ts with
    | nil =>
      subst hus
      exact ⟨[], c :: cs, rfl, .done, .blank hc hrest, rfl⟩
    | cons a ts =>
      obtain ⟨front, back, rfl, hfront, hback, hend⟩ := ih hus
      refine ⟨c :: front, back, rfl, .blank hc hfront, ?_, ?_⟩
      · rwa [byteLength_cons, ← Nat.add_assoc]
      · rwa [byteLength_cons, ← Nat.add_assoc]
  | @token pos w cs l us hw hends hrest ih =>
    cases ts with
    | nil =>
      subst hus
      exact ⟨[], w ++ cs, rfl, .done, .token hw hends hrest, rfl⟩
    | cons a ts =>
      obtain ⟨rfl, rfl⟩ := List.cons.inj hus
      obtain ⟨front, back, rfl, hfront, hback, hend⟩ := ih rfl
      -- what follows the token begins as before, or not at all
      have hends' : l.EndsBefore front := by
        intro hl c hc
        cases front with
        | nil => cases hc
        | cons d front => exact hends hl c hc
      refine ⟨w ++ front, back, (List.append_assoc _ _ _).symm, .token hw hends' hfront, ?_, ?_⟩
      · rwa [byteLength_append, ← Nat.add_assoc]
      · rwa [byteLength_append, ← Nat.add_assoc]

/-- In front of the first token there are blanks. -/
theorem Placed.exists_cons (h : Placed pos cs (a :: ts)) :
    ∃ gap rest, cs = gap ++ rest ∧ pos + byteLength gap = a.span.start
      ∧ Placed a.span.start rest (a :: ts) := by
  generalize hus : a :: ts = us at h
  induction h with
  | done => cases hus
  | @blank pos c cs us _ _ ih =>
    obtain ⟨gap, rest, rfl, hgap, hrest⟩ := ih hus
    exact ⟨c :: gap, rest, rfl, by rwa [byteLength_cons, ← Nat.add_assoc], hrest⟩
  | @token pos w cs l us hw hends hrest =>
    obtain ⟨rfl, rfl⟩ := List.cons.inj hus
    exact ⟨[], w ++ cs, rfl, rfl, .token hw hends hrest⟩

/-- **A row of tokens out of the middle** has a stretch of the text to itself:
from where its first token begins to where its last one ends. -/
theorem Placed.exists_slice (h : Placed pos cs (before ++ a :: middle ++ after)) :
    ∃ front w back, cs = front ++ (w ++ back) ∧ pos + byteLength front = a.span.start
      ∧ a.span.start + byteLength w = Token.endOf pos (a :: middle)
      ∧ Placed a.span.start w (a :: middle) := by
  rw [List.append_assoc] at h
  obtain ⟨front, behind, rfl, -, hbehind, -⟩ := h.exists_append
  obtain ⟨gap, rest, rfl, hgap, hrest⟩ := hbehind.exists_cons
  have hrow : Placed a.span.start rest ((a :: middle) ++ after) := hrest
  obtain ⟨w, back, rfl, hw, -, hend⟩ := hrow.exists_append
  refine ⟨front ++ gap, w, back, (List.append_assoc _ _ _).symm, ?_, hend, hw⟩
  rw [byteLength_append, ← Nat.add_assoc, hgap]

/-- **Reading a stretch of a text** finds the tokens that stand there. -/
theorem exists_tokens_slice {text : String}
    (h : tokens text = .ok (before ++ a :: middle ++ after)) :
    ∃ w, slice? a.span.start (Token.endOf 0 (a :: middle)) text.toList = some w
      ∧ Span.Within ⟨a.span.start, Token.endOf 0 (a :: middle)⟩ text.toList
      ∧ tokens (String.ofList w) = .ok ((a :: middle).map (Token.since a.span.start)) := by
  obtain ⟨front, w, back, htext, hstart, hstop, hw⟩ := (tokens_eq_ok_iff.mp h).exists_slice
  rw [Nat.zero_add] at hstart
  rw [← hstop, ← hstart, htext]
  refine ⟨w, slice?_byteLength front w back, Span.within_append front w back, ?_⟩
  have htokens := hw.since (Nat.le_refl a.span.start)
  rw [Nat.sub_self, ← hstart] at htokens
  rw [tokens_eq_ok_iff, String.toList_ofList]
  exact htokens

end Slices

/-! ## Triples -/

/-- **The tokens of a triple.** There are seven, and its place goes from where
the first one begins to where the last one ends. -/
inductive TriplePattern.WrittenBy : TriplePattern → List Token → Prop where
  | triple {s p o : Term} {opening a comma b comma' c closing : Token}
    (isOpening : opening.lexeme = .openParen) (subject : s.DerivedFrom a.lexeme)
    (isComma : comma.lexeme = .comma) (predicate : p.DerivedFrom b.lexeme)
    (isComma' : comma'.lexeme = .comma) (object : o.DerivedFrom c.lexeme)
    (isClosing : closing.lexeme = .closeParen) :
    WrittenBy ⟨s, p, o, ⟨opening.span.start, closing.span.stop⟩⟩
      [opening, a, comma, b, comma', c, closing]

/-- The triples of a statement, in the order in which it writes them. -/
def Statement.triplePatterns : Statement → List TriplePattern
  | insert ps => ps
  | delete ps => ps
  | select q => q.patterns

namespace Parse

variable {stop : ℕ} {ts rest front : List Token}

/-- A part with nothing behind it is all there is. -/
theorem whole_eq_ok_iff {α : Type} {r : Except SyntaxError (α × List Token)} {a : α} :
    whole stop r = .ok a ↔ r = .ok (a, []) := by
  constructor
  · intro h
    unfold whole at h
    split at h <;> cases h
    rfl
  · rintro rfl
    rfl

/-- **A triple is read from its tokens**, whatever follows them. -/
theorem triple_eq_ok_iff {p : TriplePattern} :
    triple stop ts = .ok (p, rest) ↔ ∃ front, ts = front ++ rest ∧ p.WrittenBy front := by
  constructor
  · intro h
    unfold triple at h
    simp only [bind_eq_ok_iff, Prod.exists, expect_eq_ok_iff, term_eq_ok_iff] at h
    obtain ⟨t₁, _, ⟨rfl, h₁⟩, s, _, ⟨t₂, rfl, hs⟩, t₃, _, ⟨rfl, h₃⟩, p, _, ⟨t₄, rfl, hp⟩,
      t₅, _, ⟨rfl, h₅⟩, o, _, ⟨t₆, rfl, ho⟩, t₇, _, ⟨rfl, h₇⟩, h⟩ := h
    cases h
    exact ⟨[t₁, t₂, t₃, t₄, t₅, t₆, t₇], rfl, .triple h₁ hs h₃ hp h₅ ho h₇⟩
  · rintro ⟨front, rfl, ⟨h₁, hs, h₃, hp, h₅, ho, h₇⟩⟩
    have hterm {x : Term} {t : Token} (h : x.DerivedFrom t.lexeme) (ts : List Token) :
        term stop (t :: ts) = .ok (x, ts) := term_eq_ok_iff.mpr ⟨t, rfl, h⟩
    have hexpect {l : Lexeme} {t : Token} (h : t.lexeme = l) (wanted : Expectation)
        (ts : List Token) : expect l wanted stop (t :: ts) = .ok (t, ts) :=
      expect_eq_ok_iff.mpr ⟨rfl, h⟩
    simp only [List.cons_append, List.nil_append, triple, hterm hs, hterm hp, hterm ho,
      hexpect h₁, hexpect h₃, hexpect h₅, hexpect h₇, bind, Except.bind]

/-- Each triple of a list is read from its tokens. -/
theorem exists_writtenBy_of_triples {ps : List TriplePattern}
    (h : triples stop ts = .ok (ps, rest)) :
    ∀ p ∈ ps, ∃ front, front <:+: ts ∧ p.WrittenBy front := by
  fun_induction triples stop ts generalizing ps rest with
  | case1 => cases h
  | case2 => cases h
  | case3 ts p span rest' hp ps' rest'' hps ih =>
    cases h
    obtain ⟨front, rfl, hfront⟩ := triple_eq_ok_iff.mp hp
    refine List.forall_mem_cons.mpr ⟨⟨front, ⟨[], _, rfl⟩, hfront⟩, fun q hq => ?_⟩
    obtain ⟨front', hfront', hq⟩ := ih hps q hq
    have hsuffix : rest' <:+ front ++ ⟨.comma, span⟩ :: rest' :=
      (List.suffix_cons _ rest').trans (List.suffix_append front _)
    exact ⟨front', hfront'.trans hsuffix.isInfix, hq⟩
  | case4 ts p rest' hcomma hp =>
    cases h
    obtain ⟨front, rfl, hfront⟩ := triple_eq_ok_iff.mp hp
    exact List.forall_mem_singleton.mpr ⟨front, ⟨[], _, rfl⟩, hfront⟩

/-- The patterns of a query are read from the tokens behind `WHERE`. -/
theorem exists_triples_of_selectBehind {distinct : Bool} {q : SelectStatement}
    (h : selectBehind distinct stop ts = .ok (q, rest)) :
    ∃ ts' rest', ts' <:+ ts ∧ triples stop ts' = .ok (q.patterns, rest') := by
  unfold selectBehind at h
  obtain ⟨⟨proj, ts₁⟩, hread₁, h₁⟩ := bind_eq_ok_iff.mp h
  obtain ⟨front, rfl, -⟩ := derivedFrom_of_projection hread₁
  dsimp only at h₁
  split at h₁
  · cases h₁
  · next ts₂ hwhere =>
    obtain ⟨t, rfl, -⟩ := keyword?_eq_some_iff.mp hwhere
    obtain ⟨⟨ps, ts₃⟩, hread₂, h₂⟩ := bind_eq_ok_iff.mp h₁
    obtain ⟨⟨n, ts₄⟩, -, h₃⟩ := bind_eq_ok_iff.mp h₂
    cases h₃
    exact ⟨ts₂, ts₃, (List.suffix_cons t ts₂).trans (List.suffix_append front _), hread₂⟩

/-- **Each triple of a statement is read from its tokens.** -/
theorem exists_writtenBy_of_statement {st : Statement}
    (h : statement stop ts = .ok (st, rest)) :
    ∀ p ∈ st.triplePatterns, ∃ front, front <:+: ts ∧ p.WrittenBy front := by
  suffices hsuffix : ∃ ts' rest', ts' <:+ ts ∧ triples stop ts' = .ok (st.triplePatterns, rest') by
    obtain ⟨ts', rest', hts', hread⟩ := hsuffix
    intro p hp
    obtain ⟨front, hfront, hwritten⟩ := exists_writtenBy_of_triples hread p hp
    exact ⟨front, hfront.trans hts'.isInfix, hwritten⟩
  unfold statement at h
  split at h
  · next ts' hinsert =>
    obtain ⟨t, rfl, -⟩ := keyword?_eq_some_iff.mp hinsert
    obtain ⟨⟨ps, _⟩, hread, heq⟩ := map_eq_ok_iff.mp h
    cases heq
    exact ⟨ts', _, List.suffix_cons t ts', hread⟩
  · next ts' _ hdelete =>
    obtain ⟨t, rfl, -⟩ := keyword?_eq_some_iff.mp hdelete
    obtain ⟨⟨ps, _⟩, hread, heq⟩ := map_eq_ok_iff.mp h
    cases heq
    exact ⟨ts', _, List.suffix_cons t ts', hread⟩
  · next ts' _ _ hselect =>
    obtain ⟨t, rfl, -⟩ := keyword?_eq_some_iff.mp hselect
    obtain ⟨⟨q, _⟩, hread, heq⟩ := map_eq_ok_iff.mp h
    cases heq
    rw [select_eq_selectBehind] at hread
    split at hread
    · next ts'' hdistinct =>
      obtain ⟨d, rfl, -⟩ := keyword?_eq_some_iff.mp hdistinct
      obtain ⟨ts₁, rest₁, hts₁, hread₁⟩ := exists_triples_of_selectBehind hread
      exact ⟨ts₁, rest₁, hts₁.trans ((List.suffix_cons d _).trans (List.suffix_cons t _)), hread₁⟩
    · obtain ⟨ts₁, rest₁, hts₁, hread₁⟩ := exists_triples_of_selectBehind hread
      exact ⟨ts₁, rest₁, hts₁.trans (List.suffix_cons t ts'), hread₁⟩
  · cases h

end Parse

/-- The triple as it stands in the text from byte `d` on. -/
def TriplePattern.since (d : ℕ) (p : TriplePattern) : TriplePattern :=
  { p with span := ⟨p.span.start - d, p.span.stop - d⟩ }

section WrittenBy

variable {text : String} {p : TriplePattern} {ts front : List Token}

/-- The place of a triple is that of its tokens. -/
theorem TriplePattern.WrittenBy.exists_cons (h : p.WrittenBy front) :
    ∃ a middle, front = a :: middle ∧ a.span.start = p.span.start
      ∧ Token.endOf 0 (a :: middle) = p.span.stop := by
  cases h
  exact ⟨_, _, rfl, rfl, rfl⟩

/-- The tokens of a triple, wherever the text begins. -/
theorem TriplePattern.WrittenBy.since (h : p.WrittenBy front) (d : ℕ) :
    (p.since d).WrittenBy (front.map (Token.since d)) := by
  cases h with
  | @triple s p o opening a comma b comma' c closing h₁ hs h₃ hp h₅ ho h₇ =>
    show TriplePattern.WrittenBy
      ⟨s, p, o, ⟨(Token.since d opening).span.start, (Token.since d closing).span.stop⟩⟩
      [Token.since d opening, Token.since d a, Token.since d comma, Token.since d b,
        Token.since d comma', Token.since d c, Token.since d closing]
    exact .triple h₁ hs h₃ hp h₅ ho h₇

/-- **A triple is read out of its stretch of the text.** -/
theorem TriplePattern.WrittenBy.exists_parse_slice (h : p.WrittenBy front)
    (hts : tokens text = .ok ts) (hfront : front <:+: ts) :
    ∃ w, slice? p.span.start p.span.stop text.toList = some w
      ∧ TriplePattern.parse (String.ofList w) = .ok (p.since p.span.start) := by
  obtain ⟨a, middle, rfl, hstart, hstop⟩ := h.exists_cons
  obtain ⟨before, after, rfl⟩ := hfront
  obtain ⟨w, hw, -, hread⟩ := exists_tokens_slice hts
  rw [hstart, hstop] at hw
  refine ⟨w, hw, ?_⟩
  have htriple {stop : ℕ} : Parse.triple stop ((a :: middle).map (Token.since a.span.start))
      = .ok (p.since p.span.start, []) := by
    rw [Parse.triple_eq_ok_iff, hstart]
    exact ⟨_, (List.append_nil _).symm, h.since _⟩
  simp only [TriplePattern.parse, hread, bind, Except.bind, htriple, Parse.whole]

end WrittenBy

/-- **Places locate their source.** Where a text has tokens, each stands on a
stretch of whole characters that is not empty, one behind the other, with
nothing but blanks outside them, and reading its stretch alone finds that one
token. Where a text is a statement, each of its triples stands on the stretch
from its opening to its closing parenthesis, and reading this stretch alone
finds that triple. -/
theorem places_locate_source (text : String) :
    (∀ ts, tokens text = .ok ts →
      (∀ t ∈ ts, t.span.start < t.span.stop ∧ t.span.Within text.toList)
        ∧ ts.Pairwise (fun t u => t.span.stop ≤ u.span.start)
        ∧ (∀ front c back, text.toList = front ++ c :: back → isBlank c = false →
          ∃ t ∈ ts, t.span.start ≤ byteLength front
            ∧ byteLength front + c.utf8Size ≤ t.span.stop)
        ∧ ∀ t ∈ ts, ∃ w, slice? t.span.start t.span.stop text.toList = some w
          ∧ tokens (String.ofList w) = .ok [⟨t.lexeme, ⟨0, t.span.stop - t.span.start⟩⟩])
    ∧ ∀ st, Statement.parse text = .ok st → ∀ p ∈ st.triplePatterns,
      (∃ ts front, tokens text = .ok ts ∧ front <:+: ts ∧ p.WrittenBy front)
        ∧ ∃ w, slice? p.span.start p.span.stop text.toList = some w
          ∧ TriplePattern.parse (String.ofList w)
            = .ok { p with span := ⟨0, p.span.stop - p.span.start⟩ } := by
  refine ⟨fun ts hts => ?_, fun st hst p hp => ?_⟩
  · have hplaced := tokens_eq_ok_iff.mp hts
    -- what can be said of one token is said of it in the middle of the others
    have hslice : ∀ t ∈ ts, ∃ w, slice? t.span.start t.span.stop text.toList = some w
        ∧ t.span.Within text.toList
        ∧ tokens (String.ofList w) = .ok [⟨t.lexeme, ⟨0, t.span.stop - t.span.start⟩⟩] := by
      intro t ht
      obtain ⟨before, after, rfl⟩ := List.append_of_mem ht
      rw [List.append_cons] at hts
      obtain ⟨w, hw, hwithin, hread⟩ := exists_tokens_slice hts
      refine ⟨w, hw, hwithin, ?_⟩
      rw [hread, List.map_singleton, Token.since, Nat.sub_self]
    refine ⟨fun t ht => ⟨(hplaced.lt_of_mem t ht).2, ?_⟩, hplaced.pairwise, ?_, fun t ht => ?_⟩
    · obtain ⟨-, -, hwithin, -⟩ := hslice t ht
      exact hwithin
    · intro front c back htext hc
      have hmem := hplaced.exists_mem_of_not_blank htext hc
      rwa [Nat.zero_add] at hmem
    · obtain ⟨w, hw, -, hread⟩ := hslice t ht
      exact ⟨w, hw, hread⟩
  · obtain ⟨ts, hts, hwhole⟩ := bind_eq_ok_iff.mp hst
    obtain ⟨front, hfront, hwritten⟩ :=
      Parse.exists_writtenBy_of_statement (Parse.whole_eq_ok_iff.mp hwhole) p hp
    obtain ⟨w, hw, hread⟩ := hwritten.exists_parse_slice hts hfront
    refine ⟨⟨ts, front, hts, hfront, hwritten⟩, w, hw, ?_⟩
    rwa [TriplePattern.since, Nat.sub_self] at hread

/-- A text with a blank and a node outside ASCII, an escape, and no blank where
none is needed: its triple begins at byte 16 and takes 15 bytes, and the quoted
text in it begins at byte 21 and takes 6. -/
theorem places_locate_source_of_escape :
    let text := "SELECT\u00a0?x WHERE(?x, \"é\\\"\", ?)LIMIT 1"
    let p : TriplePattern := ⟨.var "x", .node ⟨"é\""⟩, .wildcard, ⟨16, 31⟩⟩
    Statement.parse text = .ok (.select ⟨false, .vars ["x"], [p], some 1⟩)
      ∧ (∃ w, slice? 16 31 text.toList = some w
        ∧ TriplePattern.parse (String.ofList w) = .ok { p with span := ⟨0, 15⟩ })
      ∧ ∃ w, slice? 21 27 text.toList = some w
        ∧ tokens (String.ofList w) = .ok [⟨.quoted "é\"", ⟨0, 6⟩⟩] := by
  intro text p
  have hparse : Statement.parse text = .ok (.select ⟨false, .vars ["x"], [p], some 1⟩) := by
    decide +kernel
  obtain ⟨htokens, htriples⟩ := places_locate_source text
  refine ⟨hparse, (htriples _ hparse p (by decide)).2, ?_⟩
  obtain ⟨ts, hts, -⟩ := bind_eq_ok_iff.mp hparse
  have hmem : ((tokens text).toOption.any (·.contains ⟨.quoted "é\"", ⟨21, 27⟩⟩)) = true := by
    decide +kernel
  rw [hts] at hmem
  exact (htokens ts hts).2.2.2 _ (List.contains_iff_mem.mp hmem)

end TripleScript
