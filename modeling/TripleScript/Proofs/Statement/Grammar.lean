import TripleScript.Proofs.Lists
import TripleScript.Proofs.Statement.Spelling
import TripleScript.Statement.Ground

/-!
# The grammar of statements

Statements are derived from rows of lexemes by a grammar, here one inductive
relation for each of its rules. A keyword is a word in capital or small
letters, and only the place at which a rule wants it makes it one: the same
word is a node within a triple. What a derivation gives is a statement without
the places of its triples (`Statement.unplaced`), since a row of lexemes has
no places.

For every rule there are two lemmas about the function that reads it: what is
read has been derived from the tokens in front of the rest
(`derivedFrom_of_triples` and so on), and what can be derived is read
(`exists_triples_of_derivedFrom`). A list goes on at a comma, so it is read
up to its end only where no further comma follows, which is the case wherever
the grammar has a list. Together with the lexemes of a text this is
`parse_iff_derivedFrom`: a text is read exactly if it splits into lexemes from
which a statement can be derived, and then as this statement.
-/

namespace TripleScript

open Text

/-! ## Statements without places -/

/-- A triple without its place. -/
def TriplePattern.unplaced (p : TriplePattern) : TriplePattern := { p with span := default }

/-- A query without places. -/
def SelectStatement.unplaced (q : SelectStatement) : SelectStatement :=
  { q with patterns := q.patterns.map TriplePattern.unplaced }

/-- **A statement without places.** -/
def Statement.unplaced : Statement → Statement
  | insert ps => insert (ps.map TriplePattern.unplaced)
  | delete ps => delete (ps.map TriplePattern.unplaced)
  | select q => select q.unplaced

/-! ## The rules -/

/-- **A keyword**: a word that reads like it in small letters. -/
def IsKeyword (keyword : String) (l : Lexeme) : Prop :=
  ∃ text, l = .word text ∧ text.toLower = keyword.toLower

/-- `term := bare-ident | "quoted string" | var | "?"` -/
inductive Term.DerivedFrom : Term → Lexeme → Prop where
  | word (text : String) : DerivedFrom (.node ⟨text⟩) (.word text)
  | quoted (text : String) : DerivedFrom (.node ⟨text⟩) (.quoted text)
  | var (name : String) : DerivedFrom (.var name) (.var name)
  | wildcard : DerivedFrom .wildcard .wildcard

/-- `triple := "(" term "," term "," term ")"` -/
inductive TriplePattern.DerivedFrom : TriplePattern → List Lexeme → Prop where
  | triple {s p o : Term} {a b c : Lexeme} (subject : s.DerivedFrom a)
    (predicate : p.DerivedFrom b) (object : o.DerivedFrom c) :
    DerivedFrom ⟨s, p, o, default⟩ [.openParen, a, .comma, b, .comma, c, .closeParen]

/-- `item ("," item)*`, where `R` is the rule for an item. -/
inductive Listed {α : Type} (R : α → List Lexeme → Prop) : List α → List Lexeme → Prop where
  | last {a : α} {ls : List Lexeme} (item : R a ls) : Listed R [a] ls
  | more {a : α} {as : List α} {ls ls' : List Lexeme} (item : R a ls)
    (others : Listed R as ls') : Listed R (a :: as) (ls ++ .comma :: ls')

/-- A column is a variable. -/
inductive IsColumn : String → List Lexeme → Prop where
  | var (name : String) : IsColumn name [.var name]

/-- `projection := "*" | var ("," var)*` -/
inductive Projection.DerivedFrom : Projection → List Lexeme → Prop where
  | all : DerivedFrom .all [.star]
  | vars {names : List String} {ls : List Lexeme} (columns : Listed IsColumn names ls) :
    DerivedFrom (.vars names) ls

/-- `[DISTINCT]` -/
inductive DistinctFrom : Bool → List Lexeme → Prop where
  | absent : DistinctFrom false []
  | present {l : Lexeme} (keyword : IsKeyword "DISTINCT" l) : DistinctFrom true [l]

/-- `[LIMIT int]`, where the number is a word of decimal digits and below
2^64. -/
inductive LimitFrom : Option ℕ → List Lexeme → Prop where
  | absent : LimitFrom none []
  | present {l : Lexeme} {text : String} (keyword : IsKeyword "LIMIT" l) (nonempty : text ≠ "")
    (digits : ∀ c ∈ text.toList, c.isDigit = true)
    (bound : Nat.ofDigitChars 10 text.toList 0 < UInt64.size) :
    LimitFrom (some (Nat.ofDigitChars 10 text.toList 0)) [l, .word text]

/-- `SELECT [DISTINCT] projection WHERE pattern ("," pattern)* [LIMIT int]`,
from behind its first keyword. -/
inductive SelectStatement.DerivedFrom : SelectStatement → List Lexeme → Prop where
  | select {distinct : Bool} {projection : Projection} {patterns : List TriplePattern}
    {limit : Option ℕ} {ls₁ ls₂ ls₃ ls₄ : List Lexeme} {l : Lexeme}
    (dist : DistinctFrom distinct ls₁) (proj : projection.DerivedFrom ls₂)
    (whereClause : IsKeyword "WHERE" l)
    (pats : Listed TriplePattern.DerivedFrom patterns ls₃) (lim : LimitFrom limit ls₄) :
    DerivedFrom ⟨distinct, projection, patterns, limit⟩ (ls₁ ++ ls₂ ++ l :: (ls₃ ++ ls₄))

/-- `statement := insert | delete | select` -/
inductive Statement.DerivedFrom : Statement → List Lexeme → Prop where
  | insert {ps : List TriplePattern} {l : Lexeme} {ls : List Lexeme}
    (keyword : IsKeyword "INSERT" l) (triples : Listed TriplePattern.DerivedFrom ps ls) :
    DerivedFrom (.insert ps) (l :: ls)
  | delete {ps : List TriplePattern} {l : Lexeme} {ls : List Lexeme}
    (keyword : IsKeyword "DELETE" l) (triples : Listed TriplePattern.DerivedFrom ps ls) :
    DerivedFrom (.delete ps) (l :: ls)
  | select {q : SelectStatement} {l : Lexeme} {ls : List Lexeme}
    (keyword : IsKeyword "SELECT" l) (query : q.DerivedFrom ls) :
    DerivedFrom (.select q) (l :: ls)

/-- A list has an item. -/
theorem Listed.ne_nil {α : Type} {R : α → List Lexeme → Prop} {as : List α} {ls : List Lexeme}
    (h : Listed R as ls) : as ≠ [] := by
  cases h <;> exact List.cons_ne_nil _ _

/-! ## Keywords -/

/-- A keyword is a word. -/
theorem IsKeyword.ne_comma {keyword : String} {l : Lexeme} (h : IsKeyword keyword l) :
    l ≠ .comma := by
  obtain ⟨text, rfl, -⟩ := h
  exact nofun

/-- A lexeme is one keyword at most. -/
theorem IsKeyword.unique {keyword keyword' : String} {l : Lexeme} (h : IsKeyword keyword l)
    (h' : IsKeyword keyword' l) : keyword.toLower = keyword'.toLower := by
  obtain ⟨text, rfl, htext⟩ := h
  obtain ⟨text', heq, htext'⟩ := h'
  cases heq
  rw [← htext, htext']

namespace Parse

variable {stop : ℕ} {ts rest front : List Token}

/-! ## Single tokens -/

theorem isKeyword_iff {keyword : String} {l : Lexeme} :
    l.isKeyword keyword = true ↔ IsKeyword keyword l := by
  cases l with
  | word text =>
    have hlower : text.toLower = keyword.toLower
        ↔ text.toList.map Char.toLower = keyword.toList.map Char.toLower := by
      show text.map Char.toLower = keyword.map Char.toLower ↔ _
      rw [← String.toList_inj, String.toList_map, String.toList_map]
    simp [Lexeme.isKeyword, Lexeme.sameLetters, IsKeyword, hlower]
  | _ => simp [Lexeme.isKeyword, IsKeyword]

theorem keyword?_eq_some_iff {keyword : String} :
    keyword? keyword ts = some rest ↔ ∃ t, ts = t :: rest ∧ IsKeyword keyword t.lexeme := by
  cases ts with
  | nil => simp [keyword?]
  | cons t ts =>
    simp only [keyword?, ← isKeyword_iff]
    grind

theorem keyword?_eq_none_iff {keyword : String} :
    keyword? keyword ts = none ↔ ∀ t ∈ ts.head?, ¬IsKeyword keyword t.lexeme := by
  cases ts with
  | nil => simp [keyword?]
  | cons t ts => simp [keyword?, ← isKeyword_iff]

theorem expect_eq_ok_iff {l : Lexeme} {wanted : Expectation} {t : Token} :
    expect l wanted stop ts = .ok (t, rest) ↔ ts = t :: rest ∧ t.lexeme = l := by
  cases ts with
  | nil => simp [expect]
  | cons t ts =>
    simp only [expect]
    grind

theorem term_eq_ok_iff {x : Term} :
    term stop ts = .ok (x, rest) ↔ ∃ t, ts = t :: rest ∧ x.DerivedFrom t.lexeme := by
  constructor
  · intro h
    unfold term at h
    split at h
    all_goals cases h
    · exact ⟨_, rfl, .word _⟩
    · exact ⟨_, rfl, .quoted _⟩
    · exact ⟨_, rfl, .var _⟩
    · exact ⟨_, rfl, .wildcard⟩
  · rintro ⟨⟨l, span⟩, rfl, h⟩
    cases h <;> rfl

/-! ## Triples -/

/-- **A triple is read exactly if it can be derived.** -/
theorem triple_iff_derivedFrom {p : TriplePattern} :
    (∃ p', triple stop ts = .ok (p', rest) ∧ p'.unplaced = p)
      ↔ ∃ front, ts = front ++ rest ∧ p.DerivedFrom (lexemes front) := by
  constructor
  · rintro ⟨p', h, rfl⟩
    unfold triple at h
    simp only [bind_eq_ok_iff, Prod.exists, expect_eq_ok_iff, term_eq_ok_iff] at h
    obtain ⟨t₁, _, ⟨rfl, h₁⟩, s, _, ⟨t₂, rfl, hs⟩, t₃, _, ⟨rfl, h₃⟩, p, _, ⟨t₄, rfl, hp⟩,
      t₅, _, ⟨rfl, h₅⟩, o, _, ⟨t₆, rfl, ho⟩, t₇, _, ⟨rfl, h₇⟩, h⟩ := h
    cases h
    refine ⟨[t₁, t₂, t₃, t₄, t₅, t₆, t₇], rfl, ?_⟩
    simp only [lexemes, List.map_cons, List.map_nil, h₁, h₃, h₅, h₇]
    exact .triple hs hp ho
  · rintro ⟨front, rfl, h⟩
    generalize hls : lexemes front = ls at h
    cases h with
    | @triple s p o a b c hs hp ho =>
      simp only [lexemes, List.map_eq_cons_iff, List.map_eq_nil_iff] at hls
      obtain ⟨t₁, _, rfl, h₁, t₂, _, rfl, rfl, t₃, _, rfl, h₃, t₄, _, rfl, rfl, t₅, _, rfl, h₅,
        t₆, _, rfl, rfl, t₇, _, rfl, h₇, rfl⟩ := hls
      refine ⟨⟨s, p, o, ⟨t₁.span.start, t₇.span.stop⟩⟩, ?_, rfl⟩
      have hterm {x : Term} {t : Token} (h : x.DerivedFrom t.lexeme) (ts : List Token) :
          term stop (t :: ts) = .ok (x, ts) := term_eq_ok_iff.mpr ⟨t, rfl, h⟩
      have hexpect {l : Lexeme} {t : Token} (h : t.lexeme = l) (wanted : Expectation)
          (ts : List Token) : expect l wanted stop (t :: ts) = .ok (t, ts) :=
        expect_eq_ok_iff.mpr ⟨rfl, h⟩
      simp only [List.cons_append, List.nil_append, triple, hterm hs, hterm hp, hterm ho,
        hexpect h₁, hexpect h₃, hexpect h₅, hexpect h₇, bind, Except.bind]

/-- A list is read to its end where no comma follows. -/
def NoComma (ts : List Token) : Prop := ∀ t ∈ ts.head?, t.lexeme ≠ .comma

/-- A list of triples ends where no comma follows. -/
theorem triples_of_noComma {p : TriplePattern} (h : triple stop ts = .ok (p, rest))
    (hrest : NoComma rest) : triples stop ts = .ok ([p], rest) := by
  unfold triples
  split
  · next he => rw [h] at he; cases he
  · next span _ hp =>
    rw [h] at hp
    cases hp
    exact absurd rfl (hrest ⟨.comma, span⟩ rfl)
  · next hp =>
    rw [h] at hp
    cases hp
    rfl

/-- A list of triples goes on at a comma. -/
theorem triples_of_comma {p : TriplePattern} {t : Token}
    (h : triple stop ts = .ok (p, t :: rest)) (ht : t.lexeme = .comma)
    {ps : List TriplePattern} {rest' : List Token} (hps : triples stop rest = .ok (ps, rest')) :
    triples stop ts = .ok (p :: ps, rest') := by
  obtain ⟨l, span⟩ := t
  obtain rfl : l = .comma := ht
  rw [triples]
  split
  · next he => rw [h] at he; cases he
  · next hp =>
    rw [h] at hp
    cases hp
    rw [hps]
  · next hcomma hp =>
    rw [h] at hp
    cases hp
    exact absurd rfl (hcomma _ _)

/-- **What is read as a list of triples has been derived.** -/
theorem derivedFrom_of_triples {ps : List TriplePattern} (h : triples stop ts = .ok (ps, rest)) :
    ∃ front, ts = front ++ rest
      ∧ Listed TriplePattern.DerivedFrom (ps.map TriplePattern.unplaced) (lexemes front) := by
  fun_induction triples stop ts generalizing ps rest with
  | case1 => cases h
  | case2 => cases h
  | case3 ts p span rest' hp ps' rest'' hps ih =>
    cases h
    obtain ⟨front, rfl, hfront⟩ := triple_iff_derivedFrom.mp ⟨p, hp, rfl⟩
    obtain ⟨front', rfl, hfront'⟩ := ih hps
    refine ⟨front ++ ⟨.comma, span⟩ :: front', by simp, ?_⟩
    simpa [lexemes] using Listed.more hfront hfront'
  | case4 ts p rest' hcomma hp =>
    cases h
    obtain ⟨front, rfl, hfront⟩ := triple_iff_derivedFrom.mp ⟨p, hp, rfl⟩
    exact ⟨front, rfl, .last hfront⟩

/-- **A list of triples that can be derived is read.** -/
theorem exists_triples_of_derivedFrom (stop : ℕ) {ps : List TriplePattern}
    (h : Listed TriplePattern.DerivedFrom ps (lexemes front)) (hrest : NoComma rest) :
    ∃ ps', triples stop (front ++ rest) = .ok (ps', rest)
      ∧ ps'.map TriplePattern.unplaced = ps := by
  generalize hls : lexemes front = ls at h
  induction h generalizing front with
  | @last p ls hp =>
    obtain ⟨p', hp', rfl⟩ := triple_iff_derivedFrom.mpr ⟨front, rfl, hls ▸ hp⟩
    exact ⟨[p'], triples_of_noComma hp' hrest, rfl⟩
  | @more p ps ls ls' hp _ ih =>
    obtain ⟨front, others, rfl, rfl, hothers⟩ := List.map_eq_append_iff.mp hls
    obtain ⟨t, others, rfl, ht, rfl⟩ := List.map_eq_cons_iff.mp hothers
    obtain ⟨p', hp', rfl⟩ := triple_iff_derivedFrom.mpr ⟨front, rfl, hp⟩
    obtain ⟨ps', hps', rfl⟩ := ih rfl
    refine ⟨p' :: ps', ?_, rfl⟩
    rw [List.append_assoc]
    exact triples_of_comma hp' ht hps'

/-! ## Projections and limits -/

/-- What is read as columns has been derived. -/
theorem derivedFrom_of_columns {names : List String} (h : columns stop ts = .ok (names, rest)) :
    ∃ front, ts = front ++ rest ∧ Listed IsColumn names (lexemes front) := by
  fun_induction columns stop ts generalizing names rest with
  | case1 => cases h
  | case2 name span span' ts names' rest' hnames ih =>
    cases h
    obtain ⟨front, rfl, hfront⟩ := ih hnames
    exact ⟨⟨.var name, span⟩ :: ⟨.comma, span'⟩ :: front, rfl, .more (.var name) hfront⟩
  | case3 name span rest' hcomma =>
    cases h
    exact ⟨[⟨.var name, span⟩], rfl, .last (.var name)⟩
  | case4 => cases h

/-- Columns that can be derived are read. -/
theorem columns_of_derivedFrom (stop : ℕ) {names : List String}
    (h : Listed IsColumn names (lexemes front)) (hrest : NoComma rest) :
    columns stop (front ++ rest) = .ok (names, rest) := by
  generalize hls : lexemes front = ls at h
  induction h generalizing front with
  | @last name ls hname =>
    cases hname
    obtain ⟨⟨l, span⟩, _, rfl, rfl, hnil⟩ := List.map_eq_cons_iff.mp hls
    obtain rfl := List.map_eq_nil_iff.mp hnil
    show columns stop (⟨.var name, span⟩ :: rest) = _
    rw [columns]
    rintro span' rest' rfl
    exact hrest ⟨.comma, span'⟩ rfl rfl
  | @more name names ls ls' hname _ ih =>
    cases hname
    obtain ⟨⟨l, span⟩, others, rfl, rfl, hothers⟩ := List.map_eq_cons_iff.mp hls
    obtain ⟨⟨l', span'⟩, others, rfl, rfl, rfl⟩ := List.map_eq_cons_iff.mp hothers
    show columns stop (⟨.var name, span⟩ :: ⟨.comma, span'⟩ :: (others ++ rest)) = _
    rw [columns, ih rfl]

/-- What is read as a projection has been derived. -/
theorem derivedFrom_of_projection {proj : Projection}
    (h : projection stop ts = .ok (proj, rest)) :
    ∃ front, ts = front ++ rest ∧ proj.DerivedFrom (lexemes front) := by
  unfold projection at h
  split at h
  · next span rest' =>
    cases h
    exact ⟨[⟨.star, span⟩], rfl, .all⟩
  · split at h
    · cases h
    · next names rest' hnames =>
      cases h
      obtain ⟨front, rfl, hfront⟩ := derivedFrom_of_columns hnames
      exact ⟨front, rfl, .vars hfront⟩

/-- A projection that can be derived is read. -/
theorem projection_of_derivedFrom {proj : Projection} (h : proj.DerivedFrom (lexemes front))
    (hrest : NoComma rest) : projection stop (front ++ rest) = .ok (proj, rest) := by
  generalize hls : lexemes front = ls at h
  cases h with
  | all =>
    obtain ⟨⟨l, span⟩, _, rfl, rfl, hnil⟩ := List.map_eq_cons_iff.mp hls
    obtain rfl := List.map_eq_nil_iff.mp hnil
    rfl
  | vars hnames =>
    have hread := columns_of_derivedFrom stop (hls ▸ hnames) hrest
    unfold projection
    split
    · next heq =>
      rw [heq] at hread
      cases hread
    · rw [hread]

/-- A projection does not begin with a keyword. -/
theorem not_isKeyword_of_projection {proj : Projection} (h : proj.DerivedFrom (lexemes front))
    (keyword : String) : ∀ t ∈ (front ++ rest).head?, ¬IsKeyword keyword t.lexeme := by
  suffices hfirst : ∃ t ts, front = t :: ts ∧ ¬IsKeyword keyword t.lexeme by
    obtain ⟨t, ts, rfl, ht⟩ := hfirst
    intro t' ht'
    cases ht'
    exact ht
  generalize hls : lexemes front = ls at h
  cases h with
  | all =>
    obtain ⟨t, ts, rfl, ht, -⟩ := List.map_eq_cons_iff.mp hls
    exact ⟨t, ts, rfl, by rw [ht]; exact nofun⟩
  | vars hnames =>
    obtain ⟨name, ls', rfl⟩ : ∃ name ls', ls = .var name :: ls' := by
      cases hnames with
      | last item => cases item; exact ⟨_, _, rfl⟩
      | more item => cases item; exact ⟨_, _, rfl⟩
    obtain ⟨t, ts, rfl, ht, -⟩ := List.map_eq_cons_iff.mp hls
    exact ⟨t, ts, rfl, by rw [ht]; rintro ⟨_, h, -⟩; cases h⟩

/-- **The row count of a lexeme** is the number of its digits. -/
theorem rowCount?_eq_some_iff {l : Lexeme} {n : ℕ} :
    rowCount? l = some n ↔ ∃ text, l = .word text ∧ text ≠ "" ∧ (∀ c ∈ text.toList, c.isDigit)
      ∧ n < UInt64.size ∧ Nat.ofDigitChars 10 text.toList 0 = n := by
  cases l with
  | word text =>
    have hvalue : valueOfDigits 0 text.toList = Nat.ofDigitChars 10 text.toList 0 :=
      Nat.ofDigitChars_eq_foldl.symm
    have hnonempty : text.toList ≠ [] ↔ text ≠ "" := by
      rw [ne_eq, String.toList_eq_nil_iff]
    simp only [rowCount?, numeral?, hvalue, Option.filter_eq_some_iff, Option.ite_none_right_eq_some,
      Option.some.injEq, hnonempty, List.all_eq_true, Lexeme.word.injEq, decide_eq_true_eq]
    constructor
    · rintro ⟨⟨⟨nonempty, digits⟩, hn⟩, bound⟩
      exact ⟨text, rfl, nonempty, digits, Nat.lt_of_le_of_lt bound (by decide), hn⟩
    · rintro ⟨_, rfl, nonempty, digits, bound, hn⟩
      exact ⟨⟨⟨nonempty, digits⟩, hn⟩, Nat.le_of_lt_succ bound⟩
  | _ => simp [rowCount?]

/-- What is read as a limit has been derived. -/
theorem limitFrom_of_limit {n : Option ℕ} (h : limit stop ts = .ok (n, rest)) :
    ∃ front, ts = front ++ rest ∧ LimitFrom n (lexemes front) := by
  unfold limit at h
  split at h
  · cases h
    exact ⟨[], rfl, .absent⟩
  · cases h
  · next t rest' hkeyword =>
    obtain ⟨t', rfl, ht'⟩ := keyword?_eq_some_iff.mp hkeyword
    split at h
    · next n hn =>
      cases h
      obtain ⟨text, ht, nonempty, digits, bound, rfl⟩ := rowCount?_eq_some_iff.mp hn
      refine ⟨[t', t], rfl, ?_⟩
      simpa only [lexemes, List.map_cons, List.map_nil, ht]
        using LimitFrom.present ht' nonempty digits bound
    · cases h

/-- A limit that can be derived is read. -/
theorem limit_of_limitFrom {n : Option ℕ} (h : LimitFrom n (lexemes ts)) :
    limit stop ts = .ok (n, []) := by
  generalize hls : lexemes ts = ls at h
  cases h with
  | absent =>
    obtain rfl := List.map_eq_nil_iff.mp hls
    rfl
  | present keyword nonempty digits bound =>
    obtain ⟨t, _, rfl, rfl, hword⟩ := List.map_eq_cons_iff.mp hls
    obtain ⟨t', _, rfl, ht', hnil⟩ := List.map_eq_cons_iff.mp hword
    obtain rfl := List.map_eq_nil_iff.mp hnil
    rw [limit, keyword?_eq_some_iff.mpr ⟨t, rfl, keyword⟩]
    dsimp only
    rw [rowCount?_eq_some_iff.mpr ⟨_, ht', nonempty, digits, bound, rfl⟩]

/-! ## Queries and statements -/

/-- A query from behind `DISTINCT`, or from where it could stand. -/
def selectBehind (distinct : Bool) (stop : ℕ) (ts : List Token) :
    Except SyntaxError (SelectStatement × List Token) := do
  let (projection, ts) ← projection stop ts
  match keyword? "WHERE" ts with
  | none => .error (unexpected .whereClause stop ts)
  | some ts =>
    let (patterns, ts) ← triples stop ts
    let (limit, ts) ← limit stop ts
    .ok (⟨distinct, projection, patterns, limit⟩, ts)

theorem select_eq_selectBehind (stop : ℕ) (ts : List Token) :
    select stop ts = match keyword? "DISTINCT" ts with
      | some rest => selectBehind true stop rest
      | none => selectBehind false stop ts := by
  unfold select
  cases keyword? "DISTINCT" ts <;> rfl

/-- What is read behind the first words of a query has been derived. -/
theorem derivedFrom_of_selectBehind {distinct : Bool} {q : SelectStatement} {ls : List Lexeme}
    (hd : DistinctFrom distinct ls) (h : selectBehind distinct stop ts = .ok (q, rest)) :
    ∃ front, ts = front ++ rest ∧ q.unplaced.DerivedFrom (ls ++ lexemes front) := by
  unfold selectBehind at h
  obtain ⟨⟨proj, ts₁⟩, hread₁, h₁⟩ := bind_eq_ok_iff.mp h
  obtain ⟨front₁, rfl, hproj⟩ := derivedFrom_of_projection hread₁
  dsimp only at h₁
  split at h₁
  · cases h₁
  · next ts₂ hwhere =>
    obtain ⟨t, rfl, ht⟩ := keyword?_eq_some_iff.mp hwhere
    obtain ⟨⟨ps, ts₃⟩, hread₂, h₂⟩ := bind_eq_ok_iff.mp h₁
    obtain ⟨front₂, rfl, hps⟩ := derivedFrom_of_triples hread₂
    obtain ⟨⟨n, ts₄⟩, hread₃, h₃⟩ := bind_eq_ok_iff.mp h₂
    obtain ⟨front₃, rfl, hlimit⟩ := limitFrom_of_limit hread₃
    cases h₃
    refine ⟨front₁ ++ t :: (front₂ ++ front₃), by simp, ?_⟩
    simpa [lexemes, SelectStatement.unplaced]
      using SelectStatement.DerivedFrom.select hd hproj ht hps hlimit

/-- **What is read as a query has been derived.** -/
theorem derivedFrom_of_select {q : SelectStatement} (h : select stop ts = .ok (q, rest)) :
    ∃ front, ts = front ++ rest ∧ q.unplaced.DerivedFrom (lexemes front) := by
  rw [select_eq_selectBehind] at h
  split at h
  · next ts' hdistinct =>
    obtain ⟨t, rfl, ht⟩ := keyword?_eq_some_iff.mp hdistinct
    obtain ⟨front, rfl, hq⟩ := derivedFrom_of_selectBehind (.present ht) h
    exact ⟨t :: front, rfl, hq⟩
  · exact derivedFrom_of_selectBehind .absent h

/-- No comma stands in front of a keyword. -/
theorem noComma_of_isKeyword {keyword : String} {t : Token} (h : IsKeyword keyword t.lexeme)
    (ts : List Token) : NoComma (t :: ts) := by
  intro t' ht'
  cases ht'
  exact h.ne_comma

/-- Nor in front of a limit. -/
theorem noComma_of_limitFrom {n : Option ℕ} (h : LimitFrom n (lexemes ts)) : NoComma ts := by
  generalize hls : lexemes ts = ls at h
  cases h with
  | absent =>
    obtain rfl := List.map_eq_nil_iff.mp hls
    exact nofun
  | present keyword =>
    obtain ⟨t, ts, rfl, rfl, -⟩ := List.map_eq_cons_iff.mp hls
    exact noComma_of_isKeyword keyword ts

/-- **A query that can be derived is read.** -/
theorem exists_select_of_derivedFrom (stop : ℕ) {q : SelectStatement}
    (h : q.DerivedFrom (lexemes ts)) :
    ∃ q', select stop ts = .ok (q', []) ∧ q'.unplaced = q := by
  generalize hls : lexemes ts = ls at h
  cases h with
  | @select distinct proj ps n ls₁ ls₂ ls₃ ls₄ l hd hproj ht hps hlimit =>
    -- the tokens fall into the parts of the rule
    obtain ⟨front, behind, rfl, hfront, hbehind⟩ := List.map_eq_append_iff.mp hls
    obtain ⟨front₁, front₂, rfl, rfl, rfl⟩ := List.map_eq_append_iff.mp hfront
    obtain ⟨t, behind, rfl, rfl, hparts⟩ := List.map_eq_cons_iff.mp hbehind
    obtain ⟨front₃, front₄, rfl, rfl, rfl⟩ := List.map_eq_append_iff.mp hparts
    obtain ⟨ps', hps', rfl⟩ :=
      exists_triples_of_derivedFrom stop hps (noComma_of_limitFrom hlimit)
    have hread : selectBehind distinct stop (front₂ ++ t :: (front₃ ++ front₄))
        = .ok (⟨distinct, proj, ps', n⟩, []) := by
      rw [selectBehind, projection_of_derivedFrom hproj (noComma_of_isKeyword ht _)]
      simp only [bind, Except.bind, keyword?_eq_some_iff.mpr ⟨t, rfl, ht⟩, hps',
        limit_of_limitFrom hlimit]
    refine ⟨⟨distinct, proj, ps', n⟩, ?_, rfl⟩
    rw [select_eq_selectBehind, List.append_assoc]
    generalize hls₁ : front₁.map Token.lexeme = ls₁ at hd
    cases hd with
    | absent =>
      obtain rfl := List.map_eq_nil_iff.mp hls₁
      rw [List.nil_append,
        keyword?_eq_none_iff.mpr (not_isKeyword_of_projection hproj "DISTINCT")]
      exact hread
    | present keyword =>
      obtain ⟨d, _, rfl, rfl, hnil⟩ := List.map_eq_cons_iff.mp hls₁
      obtain rfl := List.map_eq_nil_iff.mp hnil
      rw [List.singleton_append, keyword?_eq_some_iff.mpr ⟨d, rfl, keyword⟩]
      exact hread

/-- **What is read as a statement has been derived.** -/
theorem derivedFrom_of_statement {st : Statement} (h : statement stop ts = .ok (st, rest)) :
    ∃ front, ts = front ++ rest ∧ st.unplaced.DerivedFrom (lexemes front) := by
  unfold statement at h
  split at h
  · next ts' hinsert =>
    obtain ⟨t, rfl, ht⟩ := keyword?_eq_some_iff.mp hinsert
    obtain ⟨⟨ps, rest'⟩, hread, heq⟩ := map_eq_ok_iff.mp h
    cases heq
    obtain ⟨front, rfl, hps⟩ := derivedFrom_of_triples hread
    exact ⟨t :: front, rfl, .insert ht hps⟩
  · next ts' _ hdelete =>
    obtain ⟨t, rfl, ht⟩ := keyword?_eq_some_iff.mp hdelete
    obtain ⟨⟨ps, rest'⟩, hread, heq⟩ := map_eq_ok_iff.mp h
    cases heq
    obtain ⟨front, rfl, hps⟩ := derivedFrom_of_triples hread
    exact ⟨t :: front, rfl, .delete ht hps⟩
  · next ts' _ _ hselect =>
    obtain ⟨t, rfl, ht⟩ := keyword?_eq_some_iff.mp hselect
    obtain ⟨⟨q, rest'⟩, hread, heq⟩ := map_eq_ok_iff.mp h
    cases heq
    obtain ⟨front, rfl, hq⟩ := derivedFrom_of_select hread
    exact ⟨t :: front, rfl, .select ht hq⟩
  · cases h

/-- A keyword is not taken for another. -/
theorem keyword?_eq_none_of_isKeyword {keyword keyword' : String} {t : Token}
    (h : IsKeyword keyword t.lexeme) (hne : keyword'.toLower ≠ keyword.toLower)
    (ts : List Token) : keyword? keyword' (t :: ts) = none := by
  refine keyword?_eq_none_iff.mpr fun t' ht' hkeyword => ?_
  cases ht'
  exact hne (hkeyword.unique h)

/-- **A statement that can be derived is read.** -/
theorem exists_statement_of_derivedFrom (stop : ℕ) {st : Statement}
    (h : st.DerivedFrom (lexemes ts)) :
    ∃ st', statement stop ts = .ok (st', []) ∧ st'.unplaced = st := by
  have hlist {ps : List TriplePattern} {ts : List Token}
      (hps : Listed TriplePattern.DerivedFrom ps (lexemes ts)) :
      ∃ ps', triples stop ts = .ok (ps', []) ∧ ps'.map TriplePattern.unplaced = ps := by
    have h : ∃ ps', triples stop (ts ++ []) = .ok (ps', []) ∧ _ :=
      exists_triples_of_derivedFrom stop hps nofun
    rwa [List.append_nil] at h
  generalize hls : lexemes ts = ls at h
  cases h with
  | insert keyword hps =>
    obtain ⟨t, ts, rfl, rfl, rfl⟩ := List.map_eq_cons_iff.mp hls
    obtain ⟨ps', hps', rfl⟩ := hlist hps
    refine ⟨.insert ps', ?_, rfl⟩
    have hinsert : keyword? Verb.insert.keyword (t :: ts) = some ts :=
      keyword?_eq_some_iff.mpr ⟨t, rfl, keyword⟩
    simp only [statement, hinsert, hps', Except.map]
  | delete keyword hps =>
    obtain ⟨t, ts, rfl, rfl, rfl⟩ := List.map_eq_cons_iff.mp hls
    obtain ⟨ps', hps', rfl⟩ := hlist hps
    refine ⟨.delete ps', ?_, rfl⟩
    have hinsert : keyword? Verb.insert.keyword (t :: ts) = none :=
      keyword?_eq_none_of_isKeyword keyword (by decide +kernel) ts
    have hdelete : keyword? Verb.delete.keyword (t :: ts) = some ts :=
      keyword?_eq_some_iff.mpr ⟨t, rfl, keyword⟩
    simp only [statement, hinsert, hdelete, hps', Except.map]
  | select keyword hq =>
    obtain ⟨t, ts, rfl, rfl, rfl⟩ := List.map_eq_cons_iff.mp hls
    obtain ⟨q', hq', rfl⟩ := exists_select_of_derivedFrom stop hq
    refine ⟨.select q', ?_, rfl⟩
    have hinsert : keyword? Verb.insert.keyword (t :: ts) = none :=
      keyword?_eq_none_of_isKeyword keyword (by decide +kernel) ts
    have hdelete : keyword? Verb.delete.keyword (t :: ts) = none :=
      keyword?_eq_none_of_isKeyword keyword (by decide +kernel) ts
    have hselect : keyword? Verb.select.keyword (t :: ts) = some ts :=
      keyword?_eq_some_iff.mpr ⟨t, rfl, keyword⟩
    simp only [statement, hinsert, hdelete, hselect, hq', Except.map]

end Parse

/-! ## Texts -/

/-- **A text that splits into lexemes from which a statement can be derived is
read as that statement.** -/
theorem parse_of_derivedFrom {text : String} {st : Statement} {ls : List Lexeme}
    (hls : Splits text.toList ls) (hst : st.DerivedFrom ls) :
    (Statement.parse text).map Statement.unplaced = .ok st := by
  obtain ⟨ts, hts, rfl⟩ := lexemes_tokens_iff.mpr hls
  obtain ⟨st', hread, rfl⟩ :=
    Parse.exists_statement_of_derivedFrom (byteLength text.toList) hst
  simp only [Statement.parse, hts, bind, Except.bind, hread, Parse.whole, Except.map]

/-- **A text that is read as a statement** splits into lexemes from which that
statement can be derived. -/
theorem exists_derivedFrom_of_parse {text : String} {st : Statement}
    (h : Statement.parse text = .ok st) :
    ∃ ls, Splits text.toList ls ∧ st.unplaced.DerivedFrom ls := by
  obtain ⟨ts, hts, hwhole⟩ := bind_eq_ok_iff.mp h
  unfold Parse.whole at hwhole
  split at hwhole
  · cases hwhole
  · next st' hread =>
    cases hwhole
    obtain ⟨front, rfl, hst⟩ := Parse.derivedFrom_of_statement hread
    rw [List.append_nil] at hts
    exact ⟨lexemes front, lexemes_tokens_iff.mp ⟨front, hts, rfl⟩, hst⟩
  · cases hwhole

/-- **The parser accepts the documented language and nothing else.** It reads a
text as a statement – leaving the places of triples aside – if and only if the
text splits by longest match into lexemes, with nothing but blanks around
them, from which the grammar derives that statement. There is only one such
row of lexemes, and since a text is read as one statement only, there is only
one statement to be derived from it. -/
theorem parse_iff_derivedFrom (text : String) (st : Statement) :
    (Statement.parse text).map Statement.unplaced = .ok st
      ↔ ∃! ls, Splits text.toList ls ∧ st.DerivedFrom ls := by
  constructor
  · intro h
    obtain ⟨st', hparse, rfl⟩ := map_eq_ok_iff.mp h
    obtain ⟨ls, hls, hst⟩ := exists_derivedFrom_of_parse hparse
    exact ⟨ls, ⟨hls, hst⟩, fun ls' h' => h'.1.unique hls⟩
  · rintro ⟨ls, ⟨hls, hst⟩, -⟩
    exact parse_of_derivedFrom hls hst

/-- **A text is read as a triple of nodes** if and only if it splits into lexemes
from which the grammar derives a triple that names these nodes. -/
theorem Triple.parse_eq_ok_iff {text : String} {t : Triple} :
    Triple.parse text = .ok t
      ↔ ∃ ls p, Splits text.toList ls ∧ TriplePattern.DerivedFrom p ls ∧ p.ground = .ok t := by
  constructor
  · intro h
    unfold Triple.parse at h
    split at h
    · cases h
    · next p hp =>
      obtain ⟨ts, hts, hwhole⟩ := bind_eq_ok_iff.mp hp
      unfold Parse.whole at hwhole
      split at hwhole
      · cases hwhole
      · next p' hread =>
        cases hwhole
        obtain ⟨front, rfl, hfront⟩ := Parse.triple_iff_derivedFrom.mp ⟨p, hread, rfl⟩
        rw [List.append_nil] at hts
        refine ⟨_, p.unplaced, lexemes_tokens_iff.mp ⟨front, hts, rfl⟩, hfront, ?_⟩
        show p.ground = .ok t
        cases hground : p.ground with
        | error e => rw [hground] at h; cases h
        | ok t' => rw [hground] at h; cases h; rfl
      · cases hwhole
  · rintro ⟨ls, p, hls, hp, hground⟩
    obtain ⟨ts, hts, rfl⟩ := lexemes_tokens_iff.mpr hls
    obtain ⟨p', hread, rfl⟩ : ∃ p', Parse.triple (byteLength text.toList) ts = .ok (p', [])
        ∧ p'.unplaced = p :=
      Parse.triple_iff_derivedFrom.mpr ⟨ts, (List.append_nil ts).symm, hp⟩
    replace hground : p'.ground = .ok t := hground
    simp only [Triple.parse, TriplePattern.parse, hts, bind, Except.bind, hread, Parse.whole,
      hground]
    rfl

end TripleScript
