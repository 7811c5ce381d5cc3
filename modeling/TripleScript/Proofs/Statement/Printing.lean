import TripleScript.Proofs.Statement.Grammar

/-!
# Statements read back

Every statement has a text, put together as the grammar puts together its
lexemes: keywords in capitals, single blanks between the parts, a comma and a
blank between the items of a list, and nodes as `Node.written` writes them
everywhere else. Not every value of `Statement` can have been read from a
text – a list may be empty, a name may have a blank in it – and the ones that
can are the writable ones (`Statement.Writable`, `Statement.writable_of_parse`).

A text *spells* a row of lexemes if it splits into them wherever no bare
character follows (`Spells`). Pieces of a text can then be put together one
after the other, as long as a piece that could go on is not followed by one
that begins with a bare character; parentheses, commas and blanks see to that.
So each part of a statement has a text that spells what the grammar derives it
from, and `parse_written` is the whole: what is written is read back, places
of triples aside.
-/

namespace TripleScript

/-! ## The text of a statement -/

/-- The term as statements write it. -/
def Term.written : Term → String
  | node n => n.written
  | var name => (OpenTerm.var name).written
  | wildcard => OpenTerm.wildcard.written

instance : ToString Term := ⟨Term.written⟩

/-- The triple as statements write it. -/
def TriplePattern.written (p : TriplePattern) : String :=
  s!"({p.subject}, {p.predicate}, {p.object})"

/-- A list as statements write it. -/
def writtenList {α : Type} (write : α → String) (as : List α) : String :=
  ", ".intercalate (as.map write)

/-- The projection as statements write it. -/
def Projection.written : Projection → String
  | all => "*"
  | vars names => writtenList (fun name => (OpenTerm.var name).written) names

/-- The word `DISTINCT` behind the first keyword, if it is wanted. -/
def writtenDistinct (distinct : Bool) : String :=
  if distinct then " DISTINCT" else ""

/-- The number of rows behind the triples, if there is one. -/
def writtenLimit : Option ℕ → String
  | none => ""
  | some n => s!" LIMIT {n}"

/-- A query as a text, from behind its first keyword. -/
def SelectStatement.written (q : SelectStatement) : String :=
  writtenDistinct q.distinct ++ s!" {q.projection.written} WHERE "
    ++ writtenList TriplePattern.written q.patterns ++ writtenLimit q.limit

/-- **The statement as a text.** -/
def Statement.written : Statement → String
  | insert ps => s!"{Verb.insert.keyword} {writtenList TriplePattern.written ps}"
  | delete ps => s!"{Verb.delete.keyword} {writtenList TriplePattern.written ps}"
  | select q => s!"{Verb.select.keyword}{q.written}"

/-- The pieces of a limit. -/
theorem writtenLimit_some (n : ℕ) :
    writtenLimit (some n) = " " ++ ("LIMIT" ++ (" " ++ toString n)) := by
  rw [← String.append_assoc, ← String.append_assoc]
  rfl

/-- The pieces of a query. -/
theorem SelectStatement.written_eq (q : SelectStatement) :
    q.written = writtenDistinct q.distinct ++ (" " ++ (q.projection.written ++ (" "
      ++ ("WHERE" ++ (" " ++ (writtenList TriplePattern.written q.patterns
        ++ writtenLimit q.limit)))))) := by
  have hwhere : " WHERE " = " " ++ ("WHERE" ++ " ") := rfl
  simp only [written, toString, hwhere, String.append_assoc]

/-! ## What can be written -/

/-- A text that is a word, and a name behind a question mark: it has a
character, and only bare ones. -/
def IsWord (text : String) : Prop := text ≠ "" ∧ ∀ c ∈ text.toList, BareCharacter c

instance : DecidablePred IsWord := fun text =>
  decidable_of_iff (text ≠ "" ∧ text.toList.all isBare = true) (by
    simp only [IsWord, List.all_eq_true, isBare_iff])

/-- Any node can be written, and a variable whose name is a word. -/
def Term.Writable : Term → Prop
  | var name => IsWord name
  | _ => True

instance : DecidablePred Term.Writable
  | .node _ => inferInstanceAs (Decidable True)
  | .var name => inferInstanceAs (Decidable (IsWord name))
  | .wildcard => inferInstanceAs (Decidable True)

/-- A triple whose terms can be written. -/
def TriplePattern.Writable (p : TriplePattern) : Prop := ∀ t ∈ p.terms, t.Writable

instance : DecidablePred TriplePattern.Writable :=
  fun _ => inferInstanceAs (Decidable (∀ _ ∈ _, _))

/-- A list that is not empty, of what can be written. -/
def WritableList {α : Type} (writable : α → Prop) (as : List α) : Prop :=
  as ≠ [] ∧ ∀ a ∈ as, writable a

instance {α : Type} [DecidableEq α] {writable : α → Prop} [DecidablePred writable] :
    DecidablePred (WritableList writable) :=
  fun _ => inferInstanceAs (Decidable (_ ∧ _))

/-- The star, or a list of names. -/
def Projection.Writable : Projection → Prop
  | all => True
  | vars names => WritableList IsWord names

instance : DecidablePred Projection.Writable
  | .all => inferInstanceAs (Decidable True)
  | .vars names => inferInstanceAs (Decidable (WritableList IsWord names))

/-- **A query that can be written.** The number of rows has to fit into 64
bits. -/
structure SelectStatement.Writable (q : SelectStatement) : Prop where
  projection : q.projection.Writable
  patterns : WritableList TriplePattern.Writable q.patterns
  limit : ∀ n ∈ q.limit, n < UInt64.size

instance : DecidablePred SelectStatement.Writable := fun _ =>
  decidable_of_iff (_ ∧ _ ∧ ∀ n ∈ _, n < UInt64.size)
    ⟨fun h => ⟨h.1, h.2.1, h.2.2⟩, fun h => ⟨h.projection, h.patterns, h.limit⟩⟩

/-- **A statement that can be written.** -/
def Statement.Writable : Statement → Prop
  | insert ps => WritableList TriplePattern.Writable ps
  | delete ps => WritableList TriplePattern.Writable ps
  | select q => q.Writable

instance : DecidablePred Statement.Writable
  | .insert ps => inferInstanceAs (Decidable (WritableList TriplePattern.Writable ps))
  | .delete ps => inferInstanceAs (Decidable (WritableList TriplePattern.Writable ps))
  | .select q => inferInstanceAs (Decidable q.Writable)

/-! ## What is read can be written -/

/-- A text splits into lexemes that can be spelled. -/
theorem Splits.exists_spelling {cs : List Char} {ls : List Lexeme} (h : Splits cs ls) :
    ∀ l ∈ ls, ∃ w, Spelling w l := by
  induction h with
  | done => exact nofun
  | blank _ _ ih => exact ih
  | lexeme hmatch _ ih => exact List.forall_mem_cons.mpr ⟨⟨_, hmatch.spelling⟩, ih⟩

/-- The name of a variable is a word. -/
theorem IsWord.of_spelling_var {w : List Char} {name : String} (h : Spelling w (.var name)) :
    IsWord name := by
  cases h with
  | var nonempty bare =>
    refine ⟨fun hempty => nonempty ?_, by rwa [String.toList_ofList]⟩
    rwa [← String.toList_eq_nil_iff, String.toList_ofList] at hempty

section Derived

variable {ls : List Lexeme} (hls : ∀ l ∈ ls, ∃ w, Spelling w l)

include hls

/-- The items of a list can be written if the rule for an item says so. -/
theorem Listed.writable {α : Type} {R : α → List Lexeme → Prop} {writable : α → Prop}
    {as : List α} (h : Listed R as ls)
    (hR : ∀ a ls, (∀ l ∈ ls, ∃ w, Spelling w l) → R a ls → writable a) :
    WritableList writable as := by
  refine ⟨h.ne_nil, ?_⟩
  induction h with
  | last item => exact List.forall_mem_singleton.mpr (hR _ _ hls item)
  | more item _ ih =>
    obtain ⟨hfirst, hothers⟩ := List.forall_mem_append.mp hls
    exact List.forall_mem_cons.mpr
      ⟨hR _ _ hfirst item, ih (List.forall_mem_cons.mp hothers).2⟩

theorem TriplePattern.DerivedFrom.writable {p : TriplePattern} (h : p.DerivedFrom ls) :
    p.Writable := by
  have hterm : ∀ {t : Term} {l : Lexeme}, t.DerivedFrom l → l ∈ ls → t.Writable := by
    intro t l ht hl
    cases ht with
    | var name =>
      obtain ⟨w, hw⟩ := hls _ hl
      exact .of_spelling_var hw
    | _ => trivial
  cases h with
  | triple subject predicate object =>
    intro t ht
    simp only [terms, List.mem_cons, List.not_mem_nil, or_false] at ht
    rcases ht with rfl | rfl | rfl
    · exact hterm subject (by simp)
    · exact hterm predicate (by simp)
    · exact hterm object (by simp)

theorem Projection.DerivedFrom.writable {proj : Projection} (h : proj.DerivedFrom ls) :
    proj.Writable := by
  cases h with
  | all => trivial
  | vars columns =>
    refine Listed.writable hls columns fun name ls hls hname => ?_
    cases hname with
    | var =>
      obtain ⟨w, hw⟩ := hls _ List.mem_cons_self
      exact .of_spelling_var hw

theorem SelectStatement.DerivedFrom.writable {q : SelectStatement} (h : q.DerivedFrom ls) :
    q.Writable := by
  cases h with
  | select dist proj whereClause pats lim =>
    obtain ⟨hfront, hback⟩ := List.forall_mem_append.mp hls
    obtain ⟨-, hproj⟩ := List.forall_mem_append.mp hfront
    obtain ⟨hpats, -⟩ := List.forall_mem_append.mp (List.forall_mem_cons.mp hback).2
    refine ⟨proj.writable hproj,
      Listed.writable hpats pats fun p ls hls hp => hp.writable hls, ?_⟩
    cases lim with
    | absent => exact nofun
    | present _ _ _ bound => rintro n ⟨⟩; exact bound

theorem Statement.DerivedFrom.writable {st : Statement} (h : st.DerivedFrom ls) :
    st.Writable := by
  cases h with
  | insert _ triples =>
    exact Listed.writable (List.forall_mem_cons.mp hls).2 triples
      fun p ls hls hp => hp.writable hls
  | delete _ triples =>
    exact Listed.writable (List.forall_mem_cons.mp hls).2 triples
      fun p ls hls hp => hp.writable hls
  | select _ query => exact query.writable (List.forall_mem_cons.mp hls).2

end Derived

/-- The places of triples do not matter for writing them. -/
theorem WritableList.of_unplaced {ps : List TriplePattern}
    (h : WritableList TriplePattern.Writable (ps.map TriplePattern.unplaced)) :
    WritableList TriplePattern.Writable ps :=
  ⟨fun hnil => h.1 (List.map_eq_nil_iff.mpr hnil),
    fun p hp => h.2 p.unplaced (List.mem_map_of_mem hp)⟩

/-- **What is read can be written.** -/
theorem Statement.writable_of_parse {text : String} {st : Statement}
    (h : Statement.parse text = .ok st) : st.Writable := by
  obtain ⟨ls, hsplits, hderived⟩ := exists_derivedFrom_of_parse h
  have hunplaced := hderived.writable hsplits.exists_spelling
  cases st with
  | insert ps => exact .of_unplaced hunplaced
  | delete ps => exact .of_unplaced hunplaced
  | select q => exact ⟨hunplaced.projection, .of_unplaced hunplaced.patterns, hunplaced.limit⟩

/-! ## Pieces of text -/

/-- A text that does not go on with a word in front of it. -/
def Apart (text : String) : Prop := ∀ c ∈ text.toList.head?, ¬BareCharacter c

instance : DecidablePred Apart := fun text =>
  decidable_of_iff (text.toList.head?.all (!isBare ·) = true) (by
    simp [Apart, Option.all_eq_true, ← isBare_iff])

/-- **A text spells lexemes** if it splits into them wherever no bare
character follows. -/
def Spells (text : String) (ls : List Lexeme) : Prop :=
  ∀ rest ls', Apart rest → Splits rest.toList ls' → Splits (text ++ rest).toList (ls ++ ls')

section Pieces

variable {s t w : String} {l : Lexeme} {ls ls' : List Lexeme}

/-- How a text begins is settled by its first piece, unless that is empty. -/
theorem Apart.append (hs : Apart s) (ht : s = "" → Apart t) : Apart (s ++ t) := by
  intro c hc
  rw [String.toList_append, List.head?_append] at hc
  cases hs' : s.toList.head? with
  | none =>
    rw [List.head?_eq_none_iff, String.toList_eq_nil_iff] at hs'
    exact ht hs' c (by simpa [hs'] using hc)
  | some d => exact hs c (by simpa [hs'] using hc)

/-- What is spelled up to the end of a text is what the text splits into. -/
theorem Spells.splits (h : Spells t ls) : Splits t.toList ls := by
  have h := h "" [] (by decide) .done
  rwa [String.append_empty, List.append_nil] at h

/-- **Pieces are put together**, the second one apart from the first. -/
theorem Spells.append (hs : Spells s ls) (ht : Spells t ls') (hapart : Apart t) :
    Spells (s ++ t) (ls ++ ls') := by
  intro rest more hrest hmore
  rw [String.append_assoc, List.append_assoc]
  exact hs _ _ (hapart.append fun _ => hrest) (ht rest more hrest hmore)

/-- The empty text spells nothing. -/
theorem Spells.empty : Spells "" [] := by
  intro rest more _ hmore
  rwa [String.empty_append]

/-- A spelling spells its lexeme. -/
theorem Spelling.spells (h : Spelling w.toList l) : Spells w [l] := by
  intro rest more hrest hmore
  rw [String.toList_append]
  exact .lexeme (longestMatch_iff.mpr ⟨h, fun _ => hrest⟩) hmore

/-- A lexeme that cannot be extended needs nothing between it and the rest. -/
theorem Spelling.spells_append (h : Spelling w.toList l) (hl : l.isExtensible = false)
    (ht : Spells t ls) : Spells (w ++ t) (l :: ls) := by
  intro rest more hrest hmore
  rw [String.append_assoc, String.toList_append]
  exact .lexeme (longestMatch_iff.mpr ⟨h, .of_not_isExtensible hl⟩) (ht rest more hrest hmore)

/-- A blank spells nothing. -/
theorem Spells.blank (h : Spells t ls) : Spells (" " ++ t) ls := by
  intro rest more hrest hmore
  rw [String.append_assoc, String.toList_append]
  exact .blank (by decide) (h rest more hrest hmore)

/-- A comma and a blank spell the comma. -/
theorem Spells.comma (h : Spells t ls) : Spells (", " ++ t) (.comma :: ls) := by
  rw [show ", " = "," ++ " " from rfl, String.append_assoc]
  exact Spelling.spells_append (w := ",") .comma rfl h.blank

theorem apart_blank (t : String) : Apart (" " ++ t) :=
  Apart.append (by decide) fun h => absurd h (by decide)

theorem apart_comma (t : String) : Apart (", " ++ t) :=
  Apart.append (by decide) fun h => absurd h (by decide)

/-- A word is spelled as it is. -/
theorem IsWord.spelling (h : IsWord w) : Spelling w.toList (.word w) := by
  have hw := Spelling.word (by rw [ne_eq, String.toList_eq_nil_iff]; exact h.1) h.2
  rwa [String.ofList_toList] at hw

/-- A word spells itself. -/
theorem IsWord.spells (h : IsWord w) : Spells w [.word w] := h.spelling.spells

/-- A keyword spells itself. -/
theorem exists_spells_keyword (keyword : String) (h : IsWord keyword) :
    ∃ l, IsKeyword keyword l ∧ Spells keyword [l] :=
  ⟨_, ⟨keyword, rfl, rfl⟩, h.spells⟩

end Pieces

/-! ## Terms and triples -/

theorem isBareText_iff {n : Node} : n.isBareText = true ↔ IsWord n.text := by
  simp [Node.isBareText, IsWord, isBare_iff]

/-- **Escaping is undone between quotes.** -/
theorem quotation_escaped (v : List Char) : Quotation (Node.escaped v) v := by
  induction v with
  | nil => exact .nil
  | cons c v ih =>
    rw [Node.escaped_cons]
    by_cases hquote : c = '"'
    · subst hquote
      exact ih.quote
    · by_cases hbackslash : c = '\\'
      · subst hbackslash
        exact ih.backslash
      · have hplain : Node.needsEscape c = false := by simp [Node.needsEscape, hquote, hbackslash]
        rw [hplain]
        exact ih.plain hquote hbackslash

/-- **A node is written as a word or between quotes**, and either says its text. -/
theorem exists_spelling_node (n : Node) :
    ∃ l, (Term.node n).DerivedFrom l ∧ Spelling n.written.toList l := by
  unfold Node.written
  split
  case isTrue hbare => exact ⟨_, .word n.text, (isBareText_iff.mp hbare).spelling⟩
  case isFalse =>
    refine ⟨_, .quoted n.text, ?_⟩
    rw [String.toList_ofList]
    simpa using Spelling.quoted (quotation_escaped n.text.toList)

/-- What is written for a node spells it. -/
theorem exists_spells_node (n : Node) :
    ∃ l, (Term.node n).DerivedFrom l ∧ Spells n.written [l] := by
  obtain ⟨l, hl, hspelling⟩ := exists_spelling_node n
  exact ⟨l, hl, hspelling.spells⟩

/-- A name behind a question mark spells a variable. -/
theorem IsWord.spells_var {name : String} (h : IsWord name) :
    Spells (OpenTerm.var name).written [.var name] := by
  have hname := Spelling.var (by rw [ne_eq, String.toList_eq_nil_iff]; exact h.1) h.2
  rw [String.ofList_toList] at hname
  refine Spelling.spells ?_
  show Spelling ("?" ++ name).toList (.var name)
  rw [String.toList_append]
  exact hname

/-- A term spells what it is derived from. -/
theorem Term.exists_spells {t : Term} (h : t.Writable) :
    ∃ l, t.DerivedFrom l ∧ Spells t.written [l] := by
  cases t with
  | node n => exact exists_spells_node n
  | var name => exact ⟨_, .var name, IsWord.spells_var h⟩
  | wildcard => exact ⟨_, .wildcard, Spelling.spells (w := "?") .wildcard⟩

/-- A triple spells what it is derived from. -/
theorem TriplePattern.exists_spells {p : TriplePattern} (h : p.Writable) :
    ∃ ls, p.unplaced.DerivedFrom ls ∧ Spells p.written ls := by
  obtain ⟨s, p, o, span⟩ := p
  obtain ⟨a, hs, hsa⟩ := Term.exists_spells (h s (by simp [terms]))
  obtain ⟨b, hp, hpb⟩ := Term.exists_spells (h p (by simp [terms]))
  obtain ⟨c, ho, hoc⟩ := Term.exists_spells (h o (by simp [terms]))
  refine ⟨_, .triple hs hp ho, ?_⟩
  have hclose : Spells ")" [.closeParen] := Spelling.spells .closeParen
  have hobject := (hoc.append hclose (by decide)).comma
  have hpredicate := (hpb.append hobject (apart_comma _)).comma
  have hsubject := hsa.append hpredicate (apart_comma _)
  have hwritten : TriplePattern.written ⟨s, p, o, span⟩ = "(" ++ (s.written ++ (", "
      ++ (p.written ++ (", " ++ (o.written ++ ")"))))) := by
    simp only [TriplePattern.written, String.append_assoc]
    rfl
  rw [hwritten]
  exact Spelling.spells_append (w := "(") .openParen rfl hsubject

/-! ## Lists -/

/-- **A list spells what it is derived from**, if its items do. -/
theorem exists_spells_list {α : Type} {R : α → List Lexeme → Prop} {write : α → String}
    {as : List α} (hne : as ≠ []) (h : ∀ a ∈ as, ∃ ls, R a ls ∧ Spells (write a) ls) :
    ∃ ls, Listed R as ls ∧ Spells (writtenList write as) ls := by
  induction as with
  | nil => exact absurd rfl hne
  | cons a as ih =>
    obtain ⟨⟨ls, ha, hspells⟩, hothers⟩ := List.forall_mem_cons.mp h
    cases as with
    | nil =>
      refine ⟨ls, .last ha, ?_⟩
      rwa [writtenList, List.map_singleton, String.intercalate_singleton]
    | cons b as =>
      obtain ⟨ls', has, hspells'⟩ := ih (List.cons_ne_nil b as) hothers
      refine ⟨_, .more ha has, ?_⟩
      rw [writtenList, List.map_cons, List.map_cons, String.intercalate_cons_cons,
        String.append_assoc, ← List.map_cons, ← writtenList]
      exact hspells.append hspells'.comma (apart_comma _)

/-- Triples spell what they are derived from. -/
theorem exists_spells_patterns {ps : List TriplePattern}
    (h : WritableList TriplePattern.Writable ps) :
    ∃ ls, Listed TriplePattern.DerivedFrom (ps.map TriplePattern.unplaced) ls
      ∧ Spells (writtenList TriplePattern.written ps) ls := by
  have hunplaced : writtenList TriplePattern.written ps
      = writtenList TriplePattern.written (ps.map TriplePattern.unplaced) := by
    rw [writtenList, writtenList, List.map_map]
    rfl
  rw [hunplaced]
  refine exists_spells_list (by simpa using h.1) fun p hp => ?_
  obtain ⟨p, hmem, rfl⟩ := List.mem_map.mp hp
  exact TriplePattern.exists_spells (h.2 p hmem)

/-- A projection spells what it is derived from. -/
theorem Projection.exists_spells {proj : Projection} (h : proj.Writable) :
    ∃ ls, proj.DerivedFrom ls ∧ Spells proj.written ls := by
  cases proj with
  | all => exact ⟨_, .all, Spelling.spells .star⟩
  | vars names =>
    obtain ⟨ls, hls, hspells⟩ := exists_spells_list (R := IsColumn) h.1
      fun name hname => ⟨_, .var name, (h.2 name hname).spells_var⟩
    exact ⟨ls, .vars hls, hspells⟩

/-! ## Statements -/

/-- The word `DISTINCT` spells what it is derived from. -/
theorem exists_spells_distinct (distinct : Bool) :
    ∃ ls, DistinctFrom distinct ls ∧ Spells (writtenDistinct distinct) ls := by
  cases distinct with
  | false => exact ⟨[], .absent, .empty⟩
  | true =>
    obtain ⟨l, hl, hspells⟩ := exists_spells_keyword "DISTINCT" (by decide)
    exact ⟨[l], .present hl, hspells.blank⟩

theorem apart_distinct (distinct : Bool) : Apart (writtenDistinct distinct) := by
  cases distinct <;> decide

/-- A number is written with digits. -/
theorem isDigit_of_mem_toString {n : ℕ} {c : Char} (h : c ∈ (toString n).toList) :
    c.isDigit = true := by
  rw [Nat.toString_eq_repr, Nat.toList_repr] at h
  exact Nat.isDigit_of_mem_toDigits (by decide) (by decide) h

/-- With at least one. -/
theorem isWord_toString (n : ℕ) : IsWord (toString n) := by
  refine ⟨fun h => ?_, fun c hc => .inr (.inl (isDigit_of_mem_toString hc))⟩
  rw [← String.toList_eq_nil_iff, Nat.toString_eq_repr, Nat.toList_repr] at h
  exact Nat.toDigits_ne_nil h

/-- And they say the number. -/
theorem ofDigitChars_toString (n : ℕ) : Nat.ofDigitChars 10 (toString n).toList 0 = n := by
  rw [Nat.toString_eq_repr, Nat.toList_repr, Nat.ofDigitChars_ten_toDigits]

/-- So they tell numbers apart. -/
theorem toString_injective {m n : ℕ} (h : toString m = toString n) : m = n := by
  rw [← ofDigitChars_toString m, h, ofDigitChars_toString]

/-- A limit spells what it is derived from. -/
theorem exists_spells_limit {limit : Option ℕ} (h : ∀ n ∈ limit, n < UInt64.size) :
    ∃ ls, LimitFrom limit ls ∧ Spells (writtenLimit limit) ls := by
  cases limit with
  | none => exact ⟨[], .absent, .empty⟩
  | some n =>
    obtain ⟨l, hl, hspells⟩ := exists_spells_keyword "LIMIT" (by decide)
    have hlimit := LimitFrom.present hl (isWord_toString n).1 (fun _ => isDigit_of_mem_toString)
      (by rw [ofDigitChars_toString]; exact h n rfl)
    rw [ofDigitChars_toString] at hlimit
    refine ⟨_, hlimit, ?_⟩
    rw [writtenLimit_some]
    exact (hspells.append (isWord_toString n).spells.blank (apart_blank _)).blank

theorem apart_limit (limit : Option ℕ) : Apart (writtenLimit limit) := by
  cases limit with
  | none => decide
  | some n =>
    rw [writtenLimit_some]
    exact apart_blank _

/-- **A query spells what it is derived from.** -/
theorem SelectStatement.exists_spells {q : SelectStatement} (h : q.Writable) :
    ∃ ls, q.unplaced.DerivedFrom ls ∧ Spells q.written ls := by
  obtain ⟨l, hl, hwhere⟩ := exists_spells_keyword "WHERE" (by decide)
  obtain ⟨ls₁, hdist, hdistinct⟩ := exists_spells_distinct q.distinct
  obtain ⟨ls₂, hproj, hprojection⟩ := Projection.exists_spells h.projection
  obtain ⟨ls₃, hpats, hpatterns⟩ := exists_spells_patterns h.patterns
  obtain ⟨ls₄, hlim, hlimit⟩ := exists_spells_limit h.limit
  refine ⟨_, .select hdist hproj hl hpats hlim, ?_⟩
  have hbody := (hpatterns.append hlimit (apart_limit _)).blank
  have hclause := (hwhere.append hbody (apart_blank _)).blank
  have hcolumns := (hprojection.append hclause (apart_blank _)).blank
  have hquery := hdistinct.append hcolumns (apart_blank _)
  rw [q.written_eq, List.append_assoc]
  exact hquery

theorem SelectStatement.apart_written (q : SelectStatement) : Apart q.written := by
  rw [q.written_eq]
  exact (apart_distinct _).append fun _ => apart_blank _

/-- Triples behind a keyword spell it and what they are derived from. -/
theorem exists_spells_command (verb : Verb) {ps : List TriplePattern}
    (h : WritableList TriplePattern.Writable ps) :
    ∃ l ls, IsKeyword verb.keyword l
      ∧ Listed TriplePattern.DerivedFrom (ps.map TriplePattern.unplaced) ls
      ∧ Spells s!"{verb.keyword} {writtenList TriplePattern.written ps}" (l :: ls) := by
  obtain ⟨l, hl, hkeyword⟩ := exists_spells_keyword verb.keyword (by cases verb <;> decide)
  obtain ⟨ls, hls, hspells⟩ := exists_spells_patterns h
  refine ⟨l, ls, hl, hls, ?_⟩
  rw [String.append_assoc]
  exact hkeyword.append hspells.blank (apart_blank _)

/-- **A statement spells what it is derived from.** -/
theorem Statement.exists_spells {st : Statement} (h : st.Writable) :
    ∃ ls, st.unplaced.DerivedFrom ls ∧ Spells st.written ls := by
  cases st with
  | insert ps =>
    obtain ⟨l, ls, hl, hls, hspells⟩ := exists_spells_command .insert h
    exact ⟨_, .insert hl hls, hspells⟩
  | delete ps =>
    obtain ⟨l, ls, hl, hls, hspells⟩ := exists_spells_command .delete h
    exact ⟨_, .delete hl hls, hspells⟩
  | select q =>
    obtain ⟨l, hl, hkeyword⟩ := exists_spells_keyword Verb.select.keyword (by decide)
    obtain ⟨ls, hls, hspells⟩ := SelectStatement.exists_spells h
    exact ⟨_, .select hl hls, hkeyword.append hspells q.apart_written⟩

/-- **What is written is read back**, places of triples aside. -/
theorem parse_written {st : Statement} (h : st.Writable) :
    (Statement.parse st.written).map Statement.unplaced = .ok st.unplaced := by
  obtain ⟨ls, hls, hspells⟩ := st.exists_spells h
  exact parse_of_derivedFrom hspells.splits hls

/-- A query with nodes that look like something else: empty ones, keywords,
quotes, backslashes and line feeds. -/
def disguisedQuery : Statement :=
  .select ⟨true, .vars ["a", "b-c"],
    [⟨.var "a", .node ⟨"WHERE"⟩, .node ⟨""⟩, default⟩,
      ⟨.wildcard, .node ⟨"say \"?a\" \\\n"⟩, .var "b-c", default⟩], some (UInt64.size - 1)⟩

/-- All of it comes back. -/
theorem parse_written_disguised : disguisedQuery.Writable
    ∧ disguisedQuery.written
      = "SELECT DISTINCT ?a, ?b-c WHERE (?a, WHERE, \"\"), "
        ++ "(?, \"say \\\"?a\\\" \\\\\n\", ?b-c) LIMIT 18446744073709551615"
    ∧ (Statement.parse disguisedQuery.written).map Statement.unplaced
      = .ok disguisedQuery.unplaced := by
  have h : disguisedQuery.Writable := by decide
  exact ⟨h, by decide, parse_written h⟩

end TripleScript
