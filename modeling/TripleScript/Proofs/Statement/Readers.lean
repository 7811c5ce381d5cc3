import Mathlib.Computability.Language
import TripleScript.Proofs.Statement.Printing

/-!
# Readers of a language

Each function that reads a part of a statement takes tokens from the front and
refuses the first one that it cannot use. Here it is shown that this is the
first one that nobody could use. For that a language is given to each part, the
rows of lexemes from which the grammar derives it, and three things are said of
the reader (`Reads`): what it reads is a row of the language; what it refuses
begins a row, up to the place of the error (`Begins`); and either way the lexemes
up to there and the one behind them settle it, whatever comes later
(`Settled`). The one behind them is needed because a list goes
on at a comma, so that its reader has to look at the token where it stops.

This is kept by the ways in which readers are put together: one after the other
(`Reads.bind`), a choice by the next lexeme (`Reads.ifNext`), a list with commas
between its items (`Reads.list`). What is left for a part is an equation that
says how its reader is put together, down to readers of one token, where there
is little to show (`Reads.single`). `reads_statement` is the whole.
-/

namespace TripleScript

/-- Some lexemes that a text can spell. -/
def Spellable (ls : List Lexeme) : Prop := ∀ l ∈ ls, ∃ w, Spelling w l

namespace Parse

/-! ## Readers of a language -/

/-- What reads a part of a statement from the front of some tokens, given where
the text ends. -/
abbrev Reader (α : Type) := ℕ → List Token → Except SyntaxError (α × List Token)

/-- The lexeme to be read next, if there is one. -/
def ahead (ts : List Token) : Option Lexeme := ts.head?.map Token.lexeme

/-- The place in front of some tokens: that of the first one, or the end of the
text. -/
def placeOf (stop : ℕ) : List Token → Span
  | [] => ⟨stop, stop⟩
  | t :: _ => t.span

/-- How reading ends: up to some tokens, or with an error. -/
inductive Ends {α : Type} : Bool → List Token → Except SyntaxError (α × List Token) → Prop where
  | read (a : α) (rest : List Token) : Ends true rest (.ok (a, rest))
  | refused (e : SyntaxError) (rest : List Token) : Ends false rest (.error e)

/-- **The beginning of a row**: lexemes that others, which a text can spell,
complete to a row of the language. -/
def Begins (R : Language Lexeme) (ls : List Lexeme) : Prop :=
  ∃ more, Spellable more ∧ ls ++ more ∈ R

section Reader

variable {ι α β : Type} {f g : ι → Reader α} {R S : Language Lexeme} {ok : Bool}
variable {stop : ℕ} {ts front rest before after : List Token}

/-- **The lexemes settle it**: whatever begins with the same lexemes and goes on
with the same one is read up to the same place, or refused as well. -/
def Settled (ok : Bool) (f : ι → Reader α) (front rest : List Token) : Prop :=
  ∀ i stop front' rest', lexemes front' = lexemes front → ahead rest' = ahead rest →
    Ends ok rest' (f i stop (front' ++ rest'))

/-- **Readers of a language.** What has been read already goes into the result
of a reader and not into what it reads, so that readers come in families. -/
structure Reads (f : ι → Reader α) (R : Language Lexeme) : Prop where
  /-- There is something to be read. -/
  exists_mem : ∃ ls ∈ R, Spellable ls
  /-- What is read is a row, and its lexemes with the next one settle that. -/
  of_ok : ∀ {i stop ts a rest}, f i stop ts = .ok (a, rest) →
    ∃ front, ts = front ++ rest ∧ lexemes front ∈ R ∧ Settled true f front rest
  /-- What is refused begins a row up to the place of the error, and the lexemes
  up to there with the next one settle that. -/
  of_error : ∀ {i stop ts e}, f i stop ts = .error e →
    ∃ before after, ts = before ++ after ∧ e.span = placeOf stop after
      ∧ Begins R (lexemes before) ∧ Settled false f before after

/-! ## What the lexemes settle -/

/-- What comes next depends on the lexemes alone. -/
theorem ahead_append {front' rest' : List Token} (hfront : lexemes front' = lexemes front)
    (hrest : ahead rest' = ahead rest) : ahead (front' ++ rest') = ahead (front ++ rest) := by
  cases front with
  | nil =>
    obtain rfl := List.map_eq_nil_iff.mp hfront
    exact hrest
  | cons t front =>
    obtain ⟨t', front', rfl, ht, -⟩ := List.map_eq_cons_iff.mp hfront
    exact congrArg some ht

/-- The next lexeme is not this one if the tokens do not begin with it. -/
theorem ne_of_mem_ahead {l : Lexeme} (h : ∀ span rest, ts ≠ ⟨l, span⟩ :: rest) :
    ∀ l' ∈ ahead ts, l' ≠ l := by
  cases ts with
  | nil => exact nofun
  | cons t rest =>
    rintro _ ⟨⟩ rfl
    exact h t.span rest rfl

/-- Tokens with the same lexemes fall into the same parts. -/
theorem exists_append_of_lexemes {ts : List Token}
    (h : lexemes ts = lexemes (front ++ rest)) :
    ∃ front' rest', ts = front' ++ rest' ∧ lexemes front' = lexemes front
      ∧ lexemes rest' = lexemes rest := by
  rw [lexemes, lexemes, List.map_append] at h
  exact List.map_eq_append_iff.mp h

/-- Nothing can be read anywhere. -/
theorem Settled.nil (v : ι → α) : Settled true (fun i _ ts => .ok (v i, ts)) [] rest := by
  intro i stop front' rest' hfront _
  rw [List.map_eq_nil_iff.mp hfront]
  exact .read _ _

section Bind

variable {k : ι × α → Reader β}

/-- Behind a part that is read the next one settles it. -/
theorem Settled.bind {front' : List Token} (hf : Settled true f front (front' ++ rest))
    (hk : Settled ok k front' rest) :
    Settled ok (fun i stop ts => f i stop ts >>= fun r => k (i, r.1) stop r.2)
      (front ++ front') rest := by
  intro i stop both rest' hboth hrest
  obtain ⟨u, u', rfl, hu, hu'⟩ := exists_append_of_lexemes hboth
  have hread := hf i stop u (u' ++ rest') hu (ahead_append hu' hrest)
  rw [List.append_assoc]
  show Ends ok rest' (f i stop (u ++ (u' ++ rest')) >>= fun r => k (i, r.1) stop r.2)
  generalize f i stop (u ++ (u' ++ rest')) = r at hread ⊢
  cases hread with
  | read a => exact hk (i, a) stop u' rest' hu' hrest

/-- A part that is refused settles it. -/
theorem Settled.bind_of_refused (hf : Settled false f before after) :
    Settled false (fun i stop ts => f i stop ts >>= fun r => k (i, r.1) stop r.2)
      before after := by
  intro i stop before' after' hbefore hafter
  have hrefused := hf i stop before' after' hbefore hafter
  show Ends false after' (f i stop (before' ++ after') >>= fun r => k (i, r.1) stop r.2)
  generalize f i stop (before' ++ after') = r at hrefused ⊢
  cases hrefused with
  | refused e => exact .refused e _

end Bind

/-- What is made of the result does not matter. -/
theorem Settled.map {κ : Type} (hf : Settled ok f front rest) (w : κ → ι) (v : κ → α → β) :
    Settled ok (fun k stop ts => (f (w k) stop ts).map fun r => (v k r.1, r.2)) front rest := by
  intro k stop front' rest' hfront hrest
  have hends := hf (w k) stop front' rest' hfront hrest
  show Ends ok rest' ((f (w k) stop (front' ++ rest')).map fun r => (v k r.1, r.2))
  generalize f (w k) stop (front' ++ rest') = r at hends ⊢
  cases hends with
  | read a => exact .read _ _
  | refused e => exact .refused e _

/-- One reader behind a lexeme of some kind, another one where none is next. -/
def ifNext (P : Lexeme → Prop) [DecidablePred P] (r r' : Reader α) : Reader α := fun stop ts =>
  match ts with
  | [] => r' stop []
  | t :: rest => if P t.lexeme then r stop rest else r' stop (t :: rest)

section IfNext

variable {P : Lexeme → Prop}

/-- The next lexeme is of a kind, or there is none of that kind next. -/
theorem next_or_not (P : Lexeme → Prop) (ts : List Token) :
    (∃ t rest, ts = t :: rest ∧ P t.lexeme) ∨ ∀ l ∈ ahead ts, ¬P l := by
  cases ts with
  | nil => exact Or.inr nofun
  | cons t rest =>
    by_cases ht : P t.lexeme
    · exact Or.inl ⟨t, rest, rfl, ht⟩
    · refine Or.inr ?_
      rintro _ ⟨⟩
      exact ht

variable [DecidablePred P] {r r' : Reader α} {t : Token}

theorem ifNext_of_pos (h : P t.lexeme) : ifNext P r r' stop (t :: rest) = r stop rest := if_pos h

theorem ifNext_of_neg (h : ∀ l ∈ ahead ts, ¬P l) : ifNext P r r' stop ts = r' stop ts := by
  cases ts with
  | nil => rfl
  | cons t rest => exact if_neg (h t.lexeme rfl)

/-- Behind a lexeme of the kind the first reader goes on. -/
theorem Settled.ifNext_of_pos (ht : P t.lexeme) (hf : Settled ok f front rest) :
    Settled ok (fun i => ifNext P (f i) (g i)) (t :: front) rest := by
  intro i stop both rest' hboth hrest
  obtain ⟨t', front', rfl, ht', hfront⟩ := List.map_eq_cons_iff.mp hboth
  show Ends ok rest' (ifNext P (f i) (g i) stop (t' :: (front' ++ rest')))
  rw [Parse.ifNext_of_pos (ht' ▸ ht)]
  exact hf i stop front' rest' hfront hrest

/-- Where none is next, the other one reads. -/
theorem Settled.ifNext_of_neg (hnot : ∀ l ∈ ahead (front ++ rest), ¬P l)
    (hg : Settled ok g front rest) : Settled ok (fun i => ifNext P (f i) (g i)) front rest := by
  intro i stop front' rest' hfront hrest
  show Ends ok rest' (ifNext P (f i) (g i) stop (front' ++ rest'))
  rw [Parse.ifNext_of_neg (ahead_append hfront hrest ▸ hnot)]
  exact hg i stop front' rest' hfront hrest

end IfNext

/-! ## How readers are put together -/

/-- A larger language is read as well. -/
theorem Reads.mono (hf : Reads f R) (h : ∀ ls ∈ R, ls ∈ S) : Reads f S where
  exists_mem := by
    obtain ⟨ls, hls, hspell⟩ := hf.exists_mem
    exact ⟨ls, h ls hls, hspell⟩
  of_ok hok := by
    obtain ⟨front, hts, hfront, hsettled⟩ := hf.of_ok hok
    exact ⟨front, hts, h _ hfront, hsettled⟩
  of_error herror := by
    obtain ⟨before, after, hts, hplace, ⟨more, hmore, hrow⟩, hsettled⟩ := hf.of_error herror
    exact ⟨before, after, hts, hplace, ⟨more, hmore, h _ hrow⟩, hsettled⟩

/-- Reading nothing. -/
theorem Reads.pure (v : ι → α) : Reads (fun i _ ts => .ok (v i, ts)) (1 : Language Lexeme) where
  exists_mem := ⟨[], rfl, nofun⟩
  of_ok {i stop ts a rest} hok := by
    cases hok
    exact ⟨[], rfl, rfl, .nil v⟩
  of_error herror := nomatch herror

/-- **One after the other.** -/
theorem Reads.bind {k : ι × α → Reader β} (hf : Reads f R) (hk : Reads k S) :
    Reads (fun i stop ts => f i stop ts >>= fun r => k (i, r.1) stop r.2) (R * S) where
  exists_mem := by
    obtain ⟨ls, hls, hspell⟩ := hf.exists_mem
    obtain ⟨ls', hls', hspell'⟩ := hk.exists_mem
    exact ⟨ls ++ ls', Language.append_mem_mul hls hls',
      List.forall_mem_append.mpr ⟨hspell, hspell'⟩⟩
  of_ok {i stop ts b rest} hok := by
    obtain ⟨⟨a, rest₁⟩, hread, hread'⟩ := bind_eq_ok_iff.mp hok
    obtain ⟨front, rfl, hfront, hsettled⟩ := hf.of_ok hread
    obtain ⟨front', rfl, hfront', hsettled'⟩ := hk.of_ok hread'
    refine ⟨front ++ front', (List.append_assoc _ _ _).symm, ?_, hsettled.bind hsettled'⟩
    rw [lexemes, List.map_append]
    exact Language.append_mem_mul hfront hfront'
  of_error {i stop ts e} herror := by
    rcases bind_eq_error_iff.mp herror with hread | ⟨⟨a, rest⟩, hread, hread'⟩
    · obtain ⟨before, after, hts, hplace, ⟨more, hmore, hrow⟩, hsettled⟩ := hf.of_error hread
      obtain ⟨ls', hls', hspell'⟩ := hk.exists_mem
      refine ⟨before, after, hts, hplace, ⟨more ++ ls', ?_, ?_⟩, hsettled.bind_of_refused⟩
      · exact List.forall_mem_append.mpr ⟨hmore, hspell'⟩
      · rw [← List.append_assoc]
        exact Language.append_mem_mul hrow hls'
    · obtain ⟨front, rfl, hfront, hsettled⟩ := hf.of_ok hread
      obtain ⟨before, after, rfl, hplace, ⟨more, hmore, hrow⟩, hsettled'⟩ := hk.of_error hread'
      refine ⟨front ++ before, after, (List.append_assoc _ _ _).symm, hplace,
        ⟨more, hmore, ?_⟩, hsettled.bind hsettled'⟩
      rw [lexemes, List.map_append, List.append_assoc]
      exact Language.append_mem_mul hfront hrow

/-- The result may be turned into another. -/
theorem Reads.map (hf : Reads f R) (v : α → β) :
    Reads (fun i stop ts => (f i stop ts).map fun r => (v r.1, r.2)) R := by
  have h := hf.bind (Reads.pure fun x : ι × α => v x.2)
  rw [mul_one] at h
  exact h

/-- A row of one lexeme of some kind. -/
def rowOf (P : Lexeme → Prop) : Language Lexeme := {ls | ∃ l, ls = [l] ∧ P l}

/-- **One token**, if it is as it should be. -/
theorem Reads.single {r : Reader α} {P : Lexeme → Prop} (hex : ∃ l w, P l ∧ Spelling w l)
    (hok : ∀ {stop ts a rest}, r stop ts = .ok (a, rest) → ∃ t, ts = t :: rest ∧ P t.lexeme)
    (hread : ∀ stop t rest, P t.lexeme → ∃ a, r stop (t :: rest) = .ok (a, rest))
    (herror : ∀ {stop ts e}, r stop ts = .error e → e.span = placeOf stop ts) :
    Reads (fun _ : ι => r) (rowOf P) where
  exists_mem := by
    obtain ⟨l, w, hl, hw⟩ := hex
    exact ⟨[l], ⟨l, rfl, hl⟩, List.forall_mem_singleton.mpr ⟨w, hw⟩⟩
  of_ok h := by
    obtain ⟨t, rfl, ht⟩ := hok h
    refine ⟨[t], rfl, ⟨t.lexeme, rfl, ht⟩, fun _ stop front' rest' hfront _ => ?_⟩
    obtain ⟨t', _, rfl, ht', hnil⟩ := List.map_eq_cons_iff.mp hfront
    obtain rfl := List.map_eq_nil_iff.mp hnil
    obtain ⟨a, ha⟩ := hread stop t' rest' (ht' ▸ ht)
    show Ends true rest' (r stop (t' :: rest'))
    rw [ha]
    exact .read a rest'
  of_error {i stop ts e} h := by
    obtain ⟨l, w, hl, hw⟩ := hex
    refine ⟨[], ts, rfl, herror h, ⟨[l], List.forall_mem_singleton.mpr ⟨w, hw⟩, l, rfl, hl⟩, ?_⟩
    intro _ stop' before' after' hbefore hafter
    rw [List.map_eq_nil_iff.mp hbefore]
    show Ends false after' (r stop' after')
    cases hr : r stop' after' with
    | error e' => exact .refused e' _
    | ok p =>
      -- then the tokens that have been refused begin with the same lexeme
      obtain ⟨a, rest⟩ := p
      obtain ⟨t, rfl, ht⟩ := hok hr
      cases ts with
      | nil => cases hafter
      | cons u ts =>
        obtain ⟨b, hb⟩ := hread stop u ts (Option.some.inj hafter ▸ ht)
        cases h.symm.trans hb

/-- **The next lexeme decides** what is read. -/
theorem Reads.ifNext {P : Lexeme → Prop} [DecidablePred P] (hf : Reads f R) (hg : Reads g S) :
    Reads (fun i => ifNext P (f i) (g i)) (rowOf P * R + S) where
  exists_mem := by
    obtain ⟨ls, hls, hspell⟩ := hg.exists_mem
    exact ⟨ls, Or.inr hls, hspell⟩
  of_ok {i stop ts a rest} hok := by
    rcases next_or_not P ts with ⟨t, behind, rfl, ht⟩ | hnot
    · obtain ⟨front, rfl, hfront, hsettled⟩ := hf.of_ok ((ifNext_of_pos ht).symm.trans hok)
      refine ⟨t :: front, rfl, Or.inl ?_, hsettled.ifNext_of_pos ht⟩
      exact Language.append_mem_mul (a := [t.lexeme]) ⟨t.lexeme, rfl, ht⟩ hfront
    · obtain ⟨front, rfl, hfront, hsettled⟩ := hg.of_ok ((ifNext_of_neg hnot).symm.trans hok)
      exact ⟨front, rfl, Or.inr hfront, hsettled.ifNext_of_neg hnot⟩
  of_error {i stop ts e} herror := by
    rcases next_or_not P ts with ⟨t, behind, rfl, ht⟩ | hnot
    · obtain ⟨before, after, rfl, hplace, ⟨more, hmore, hrow⟩, hsettled⟩ :=
        hf.of_error ((ifNext_of_pos ht).symm.trans herror)
      refine ⟨t :: before, after, rfl, hplace, ⟨more, hmore, Or.inl ?_⟩, hsettled.ifNext_of_pos ht⟩
      exact Language.append_mem_mul (a := [t.lexeme]) ⟨t.lexeme, rfl, ht⟩ hrow
    · obtain ⟨before, after, rfl, hplace, ⟨more, hmore, hrow⟩, hsettled⟩ :=
        hg.of_error ((ifNext_of_neg hnot).symm.trans herror)
      exact ⟨before, after, rfl, hplace, ⟨more, hmore, Or.inr hrow⟩, hsettled.ifNext_of_neg hnot⟩

end Reader

section Lists

variable {ι α β : Type} {item : Reader α} {items : Reader (List α)}
variable {Q : β → List Lexeme → Prop}

/-- The list that begins with an item: behind a comma further ones are read. -/
def listFrom (items : Reader (List α)) (a : α) : Reader (List α) :=
  ifNext (· = .comma) (fun stop ts => (items stop ts).map fun r => (a :: r.1, r.2))
    (fun _ ts => .ok ([a], ts))

/-- **A reader of a list** reads an item and the list that begins with it. -/
def ReadsList (item : Reader α) (items : Reader (List α)) : Prop :=
  items = fun stop ts => item stop ts >>= fun r => listFrom items r.1 stop r.2

/-- **A list of what can be read.** -/
theorem Reads.list (hitem : Reads (fun _ : ι => item) {ls | ∃ b, Q b ls})
    (hlist : ReadsList item items) :
    Reads (fun _ : ι => items) {ls | ∃ bs, Listed Q bs ls} where
  exists_mem := by
    obtain ⟨ls, ⟨b, hb⟩, hspell⟩ := hitem.exists_mem
    exact ⟨ls, ⟨[b], .last hb⟩, hspell⟩
  of_ok {i stop ts as rest} hok := by
    induction hn : ts.length using Nat.strongRecOn generalizing ts as with
    | _ n ih =>
      subst hn
      rw [hlist] at hok
      obtain ⟨⟨a, behind⟩, hread, hbehind⟩ := bind_eq_ok_iff.mp hok
      obtain ⟨front, rfl, ⟨b, hb⟩, hsettled⟩ := hitem.of_ok (i := i) hread
      rcases next_or_not (· = .comma) behind with ⟨t, behind, rfl, ht⟩ | hcomma
      · obtain ⟨⟨as', rest'⟩, hothers, heq⟩ :=
          map_eq_ok_iff.mp ((ifNext_of_pos ht).symm.trans hbehind)
        cases heq
        obtain ⟨front', rfl, ⟨bs, hbs⟩, hsettled'⟩ := ih behind.length (by simp; omega) hothers rfl
        refine ⟨front ++ t :: front', by simp, ⟨b :: bs, ?_⟩, ?_⟩
        · rw [lexemes, List.map_append, List.map_cons, ht]
          exact .more hb hbs
        · rw [hlist]
          exact hsettled.bind (k := fun x => listFrom items x.2)
            ((hsettled'.map Prod.fst fun x as => x.2 :: as).ifNext_of_pos (P := (· = .comma)) ht)
      · cases (ifNext_of_neg hcomma).symm.trans hbehind
        refine ⟨front, rfl, ⟨[b], .last hb⟩, ?_⟩
        have hend : Settled true (fun x : ι × α => listFrom items x.2) [] rest :=
          Settled.ifNext_of_neg (P := (· = .comma)) hcomma (.nil _)
        have hlast := hsettled.bind hend
        rw [List.append_nil] at hlast
        rw [hlist]
        exact hlast
  of_error {i stop ts e} herror := by
    induction hn : ts.length using Nat.strongRecOn generalizing ts with
    | _ n ih =>
      subst hn
      rw [hlist] at herror
      rcases bind_eq_error_iff.mp herror with hread | ⟨⟨a, behind⟩, hread, hbehind⟩
      · obtain ⟨before, after, hts, hplace, ⟨more, hmore, b, hb⟩, hsettled⟩ :=
          hitem.of_error (i := i) hread
        refine ⟨before, after, hts, hplace, ⟨more, hmore, [b], .last hb⟩, ?_⟩
        rw [hlist]
        exact hsettled.bind_of_refused (k := fun x => listFrom items x.2)
      · obtain ⟨front, rfl, ⟨b, hb⟩, hsettled⟩ := hitem.of_ok (i := i) hread
        rcases next_or_not (· = .comma) behind with ⟨t, behind, rfl, ht⟩ | hcomma
        · obtain ⟨before, after, rfl, hplace, ⟨more, hmore, bs, hbs⟩, hsettled'⟩ :=
            ih behind.length (by simp; omega)
              (map_eq_error_iff.mp ((ifNext_of_pos ht).symm.trans hbehind)) rfl
          refine ⟨front ++ t :: before, after, by simp, hplace, ⟨more, hmore, b :: bs, ?_⟩, ?_⟩
          · rw [lexemes, List.map_append, List.map_cons, ht, List.append_assoc]
            exact .more hb hbs
          · rw [hlist]
            exact hsettled.bind (k := fun x => listFrom items x.2)
              ((hsettled'.map Prod.fst fun x as => x.2 :: as).ifNext_of_pos (P := (· = .comma)) ht)
        · cases (ifNext_of_neg hcomma).symm.trans hbehind

end Lists

/-! ## Single tokens -/

section Parts

variable {ι : Type}

/-- What has not been expected is refused where it stands. -/
theorem span_unexpected (wanted : Expectation) (stop : ℕ) (ts : List Token) :
    (unexpected wanted stop ts).span = placeOf stop ts := by
  cases ts <;> rfl

/-- A token that has to be there. -/
theorem reads_expect {l : Lexeme} (wanted : Expectation) (hl : ∃ w, Spelling w l) :
    Reads (fun _ : ι => expect l wanted) (rowOf (· = l)) := by
  obtain ⟨w, hw⟩ := hl
  refine Reads.single ⟨l, w, rfl, hw⟩ (fun h => ?_) (fun stop t rest ht => ?_)
    (fun {stop ts e} h => ?_)
  · exact ⟨_, expect_eq_ok_iff.mp h⟩
  · exact ⟨t, expect_eq_ok_iff.mpr ⟨rfl, ht⟩⟩
  · unfold expect at h
    split at h
    · cases h
      rfl
    · split at h
      · cases h
      · cases h
        rfl

/-- A position of a triple. -/
theorem reads_term :
    Reads (fun _ : ι => term) (rowOf fun l => ∃ x : Term, x.DerivedFrom l) := by
  refine Reads.single ⟨.wildcard, _, ⟨_, .wildcard⟩, .wildcard⟩ (fun h => ?_)
    (fun stop t rest ht => ?_) (fun {stop ts e} h => ?_)
  · obtain ⟨t, rfl, ht⟩ := term_eq_ok_iff.mp h
    exact ⟨t, rfl, _, ht⟩
  · obtain ⟨x, hx⟩ := ht
    exact ⟨x, term_eq_ok_iff.mpr ⟨t, rfl, hx⟩⟩
  · unfold term at h
    split at h
    all_goals cases h
    exact span_unexpected .term stop ts

/-- A keyword that has to be there. -/
def keywordToken (keyword : String) (wanted : Expectation) : Reader Unit := fun stop ts =>
  match keyword? keyword ts with
  | some rest => .ok ((), rest)
  | none => .error (unexpected wanted stop ts)

theorem reads_keywordToken {keyword : String} (wanted : Expectation) (h : IsWord keyword) :
    Reads (fun _ : ι => keywordToken keyword wanted) (rowOf (IsKeyword keyword)) := by
  refine Reads.single ⟨.word keyword, _, ⟨keyword, rfl, rfl⟩, h.spelling⟩ (fun h => ?_)
    (fun stop t rest ht => ?_) (fun {stop ts e} h => ?_)
  · unfold keywordToken at h
    split at h
    · next hkeyword =>
      cases h
      exact keyword?_eq_some_iff.mp hkeyword
    · cases h
  · have hkeyword : keyword? keyword (t :: rest) = some rest :=
      keyword?_eq_some_iff.mpr ⟨t, rfl, ht⟩
    exact ⟨(), by rw [keywordToken, hkeyword]⟩
  · unfold keywordToken at h
    split at h
    · cases h
    · cases h
      exact span_unexpected wanted stop ts

/-- The next column of a query. -/
def column : Reader String := fun stop ts =>
  match ts with
  | ⟨.var name, _⟩ :: rest => .ok (name, rest)
  | _ => .error (unexpected .column stop ts)

theorem reads_column : Reads (fun _ : ι => column) {ls | ∃ name, IsColumn name ls} := by
  have hcolumn : Reads (fun _ : ι => column) (rowOf fun l => ∃ name, l = .var name) := by
    have hname : Spelling ['?', 'a'] (.var "a") :=
      .var (List.cons_ne_nil _ _) (List.forall_mem_singleton.mpr (Or.inl rfl))
    refine Reads.single ⟨.var "a", _, ⟨"a", rfl⟩, hname⟩ (fun h => ?_)
      (fun stop t rest ht => ?_) (fun {stop ts e} h => ?_)
    · unfold column at h
      split at h
      · cases h
        exact ⟨_, rfl, _, rfl⟩
      · cases h
    · obtain ⟨l, span⟩ := t
      obtain ⟨name, rfl⟩ := ht
      exact ⟨name, rfl⟩
    · unfold column at h
      split at h
      all_goals cases h
      exact span_unexpected .column stop ts
  refine hcolumn.mono ?_
  rintro _ ⟨_, rfl, name, rfl⟩
  exact ⟨name, .var name⟩

/-- The number behind `LIMIT`. -/
def countToken : Reader (Option ℕ) := fun stop ts =>
  match ts with
  | [] => .error ⟨.missingRowCount, ⟨stop, stop⟩⟩
  | t :: rest =>
    match rowCount? t.lexeme with
    | some n => .ok (some n, rest)
    | none => .error ⟨.invalidRowCount t.lexeme, t.span⟩

theorem reads_countToken :
    Reads (fun _ : ι => countToken) (rowOf fun l => ∃ n, rowCount? l = some n) := by
  refine Reads.single ⟨.word "0", _, ⟨0, by decide⟩, IsWord.spelling (by decide)⟩
    (fun h => ?_) (fun stop t rest ht => ?_) (fun {stop ts e} h => ?_)
  · unfold countToken at h
    split at h
    · cases h
    · split at h
      · next hn =>
        cases h
        exact ⟨_, rfl, _, hn⟩
      · cases h
  · obtain ⟨n, hn⟩ := ht
    exact ⟨some n, by rw [countToken, hn]⟩
  · unfold countToken at h
    split at h
    · cases h
      rfl
    · split at h
      · cases h
      · cases h
        rfl

/-! ## The parts of a statement -/

/-- **A triple.** -/
theorem reads_triple :
    Reads (fun _ : ι => triple) {ls | ∃ p, TriplePattern.DerivedFrom p ls} := by
  have hopen : Reads (fun _ : ι => expect .openParen .openParen) _ := reads_expect _ ⟨_, .openParen⟩
  have hcomma {κ : Type} : Reads (fun _ : κ => expect .comma .comma) _ := reads_expect _ ⟨_, .comma⟩
  have hclose {κ : Type} : Reads (fun _ : κ => expect .closeParen .closeParen) _ :=
    reads_expect _ ⟨_, .closeParen⟩
  have hsteps := hopen.bind (reads_term.bind (hcomma.bind (reads_term.bind (hcomma.bind
    (reads_term.bind (hclose.bind (.pure fun x => TriplePattern.mk x.1.1.1.1.1.2 x.1.1.1.2 x.1.2
      ⟨x.1.1.1.1.1.1.2.span.start, x.2.span.stop⟩)))))))
  -- the reader of a triple is nothing but these steps
  have hread : Reads (fun _ : ι => triple) _ := hsteps
  refine hread.mono ?_
  rintro _ ⟨_, ⟨_, rfl, rfl⟩, _, ⟨_, ⟨a, rfl, s, hs⟩, _, ⟨_, ⟨_, rfl, rfl⟩, _, ⟨_, ⟨b, rfl, p, hp⟩,
    _, ⟨_, ⟨_, rfl, rfl⟩, _, ⟨_, ⟨c, rfl, o, ho⟩, _, ⟨_, ⟨_, rfl, rfl⟩, _, rfl, rfl⟩, rfl⟩, rfl⟩,
    rfl⟩, rfl⟩, rfl⟩, rfl⟩
  exact ⟨_, .triple hs hp ho⟩

/-- Triples with commas between them. -/
theorem readsList_triples : ReadsList triple triples := by
  funext stop ts
  rw [triples]
  split
  · next h =>
    rw [h]
    rfl
  · next p span rest h =>
    rw [h]
    show _ = (triples stop rest).map fun r => (p :: r.1, r.2)
    cases triples stop rest <;> rfl
  · next p rest hcomma h =>
    rw [h]
    show _ = listFrom triples p stop rest
    rw [listFrom, ifNext_of_neg (ne_of_mem_ahead hcomma)]

/-- Columns with commas between them. -/
theorem readsList_columns : ReadsList column columns := by
  funext stop ts
  unfold column
  split
  · next name span rest =>
    show _ = listFrom columns name stop rest
    rcases next_or_not (· = .comma) rest with ⟨⟨_, span'⟩, rest, rfl, rfl⟩ | hcomma
    · show _ = (columns stop rest).map fun r => (name :: r.1, r.2)
      rw [columns]
      cases columns stop rest <;> rfl
    · rw [listFrom, ifNext_of_neg hcomma, columns]
      rintro span' rest' rfl
      exact hcomma _ rfl rfl
  · next hvar =>
    rw [columns.eq_3 stop ts (fun name span span' rest => hvar name span _) hvar]
    rfl

/-- A star is the next lexeme, or columns are read. -/
theorem projection_eq : projection
    = ifNext (· = .star) (fun _ ts => .ok (.all, ts))
      (fun stop ts => (columns stop ts).map fun r => (.vars r.1, r.2)) := by
  funext stop ts
  unfold projection
  split
  · rfl
  · next hstar =>
    rw [ifNext_of_neg (ne_of_mem_ahead hstar)]
    cases columns stop ts <;> rfl

/-- **The columns of a query.** -/
theorem reads_projection :
    Reads (fun _ : ι => projection) {ls | ∃ proj, Projection.DerivedFrom proj ls} := by
  have hcolumns : Reads (fun _ : ι => columns) _ := Reads.list reads_column readsList_columns
  have hstar : Reads (fun (_ : ι) _ ts => .ok (Projection.all, ts)) _ := .pure _
  rw [projection_eq]
  refine (hstar.ifNext (hcolumns.map Projection.vars)).mono ?_
  rintro _ (⟨_, ⟨_, rfl, rfl⟩, _, rfl, rfl⟩ | ⟨names, hnames⟩)
  · exact ⟨_, .all⟩
  · exact ⟨_, .vars hnames⟩

/-- **Triples.** -/
theorem reads_triples :
    Reads (fun _ : ι => triples) {ls | ∃ ps, Listed TriplePattern.DerivedFrom ps ls} :=
  Reads.list reads_triple readsList_triples

/-- What stands behind a keyword is read if the keyword is next. -/
theorem ifNext_isKeyword {α : Type} {keyword : String} {r r' : Reader α} {stop : ℕ}
    {ts : List Token} :
    ifNext (·.isKeyword keyword = true) r r' stop ts
      = match keyword? keyword ts with
        | some rest => r stop rest
        | none => r' stop ts := by
  cases ts with
  | nil => rfl
  | cons t rest =>
    by_cases h : t.lexeme.isKeyword keyword = true
    · rw [ifNext_of_pos h, keyword?, if_pos h]
    · rw [keyword?, if_neg h]
      exact if_neg h

/-- A number is read if there is a `LIMIT`. -/
theorem limit_eq : limit
    = ifNext (·.isKeyword "LIMIT" = true) countToken (fun _ ts => .ok (none, ts)) := by
  funext stop ts
  rw [ifNext_isKeyword]
  unfold limit countToken
  cases keyword? "LIMIT" ts with
  | none => rfl
  | some rest => cases rest <;> rfl

/-- **The row limit of a query**, if it has one. -/
theorem reads_limit : Reads (fun _ : ι => limit) {ls | ∃ n, LimitFrom n ls} := by
  have habsent : Reads (fun (_ : ι) _ ts => .ok ((none : Option ℕ), ts)) _ := .pure _
  rw [limit_eq]
  refine (reads_countToken.ifNext habsent).mono ?_
  rintro _ (⟨_, ⟨l, rfl, hl⟩, _, ⟨l', rfl, n, hn⟩, rfl⟩ | rfl)
  · obtain ⟨text, rfl, nonempty, digits, bound, rfl⟩ := rowCount?_eq_some_iff.mp hn
    exact ⟨_, .present (isKeyword_iff.mp hl) nonempty digits bound⟩
  · exact ⟨_, .absent⟩

/-- The parts of a query, one after the other. -/
theorem selectBehind_eq (distinct : Bool) : selectBehind distinct = fun stop ts =>
    projection stop ts >>= fun a => keywordToken "WHERE" .whereClause stop a.2 >>= fun b =>
      triples stop b.2 >>= fun c => limit stop c.2 >>= fun d =>
        .ok (⟨distinct, a.1, c.1, d.1⟩, d.2) := by
  funext stop ts
  unfold selectBehind keywordToken
  cases projection stop ts with
  | error e => rfl
  | ok a =>
    simp only [bind, Except.bind]
    cases keyword? "WHERE" a.2 <;> rfl

/-- A query from behind `DISTINCT`, or from where it could stand. -/
theorem reads_selectBehind (distinct : Bool) :
    Reads (fun _ : ι => selectBehind distinct)
      {ls | ∀ ls', DistinctFrom distinct ls' → ∃ q, SelectStatement.DerivedFrom q (ls' ++ ls)} := by
  have hprojection : Reads (fun _ : ι => projection) _ := reads_projection
  have hwhere {κ : Type} : Reads (fun _ : κ => keywordToken "WHERE" .whereClause) _ :=
    reads_keywordToken _ (by decide)
  have hsteps := hprojection.bind (hwhere.bind (reads_triples.bind (reads_limit.bind (.pure fun x =>
      SelectStatement.mk distinct x.1.1.1.2 x.1.2 x.2))))
  rw [selectBehind_eq]
  refine hsteps.mono ?_
  rintro _ ⟨ls₂, ⟨proj, hproj⟩, _, ⟨_, ⟨l, rfl, hl⟩, _, ⟨ls₃, ⟨ps, hps⟩, _,
    ⟨ls₄, ⟨n, hn⟩, _, rfl, rfl⟩, rfl⟩, rfl⟩, rfl⟩ ls₁ hdistinct
  refine ⟨⟨distinct, proj, ps, n⟩, ?_⟩
  have hquery := SelectStatement.DerivedFrom.select hdistinct hproj hl hps hn
  rw [List.append_assoc] at hquery
  simpa using hquery

/-- `DISTINCT` may stand in front of them. -/
theorem select_eq : select
    = ifNext (·.isKeyword "DISTINCT" = true) (selectBehind true) (selectBehind false) := by
  funext stop ts
  refine (select_eq_selectBehind stop ts).trans (Eq.trans ?_ ifNext_isKeyword.symm)
  cases keyword? "DISTINCT" ts <;> rfl

/-- **A query.** -/
theorem reads_select :
    Reads (fun _ : ι => select) {ls | ∃ q, SelectStatement.DerivedFrom q ls} := by
  rw [select_eq]
  refine ((reads_selectBehind true).ifNext (reads_selectBehind false)).mono ?_
  rintro _ (⟨_, ⟨l, rfl, hl⟩, ls, hls, rfl⟩ | hls)
  · exact hls [l] (.present (isKeyword_iff.mp hl))
  · exact hls [] .absent

/-- The first keyword decides what a statement is. -/
theorem statement_eq : statement
    = ifNext (·.isKeyword Verb.insert.keyword = true)
      (fun stop ts => (triples stop ts).map fun r => (.insert r.1, r.2))
      (ifNext (·.isKeyword Verb.delete.keyword = true)
        (fun stop ts => (triples stop ts).map fun r => (.delete r.1, r.2))
        (fun stop ts => keywordToken Verb.select.keyword .statement stop ts >>= fun a =>
          (select stop a.2).map fun r => (.select r.1, r.2))) := by
  funext stop ts
  rw [ifNext_isKeyword, ifNext_isKeyword]
  unfold statement keywordToken
  cases keyword? Verb.insert.keyword ts <;> cases keyword? Verb.delete.keyword ts
    <;> cases keyword? Verb.select.keyword ts <;> rfl

/-- **A statement.** -/
theorem reads_statement :
    Reads (fun _ : ι => statement) {ls | ∃ st, Statement.DerivedFrom st ls} := by
  have hselect : Reads (fun _ : ι => keywordToken Verb.select.keyword .statement) _ :=
    reads_keywordToken _ (by decide)
  have hquery := hselect.bind (reads_select.map Statement.select)
  have htriples : Reads (fun _ : ι => triples) _ := reads_triples
  rw [statement_eq]
  refine ((htriples.map Statement.insert).ifNext
    ((htriples.map Statement.delete).ifNext hquery)).mono ?_
  rintro _ (⟨_, ⟨l, rfl, hl⟩, ls, ⟨ps, hps⟩, rfl⟩ | ⟨_, ⟨l, rfl, hl⟩, ls, ⟨ps, hps⟩, rfl⟩
    | ⟨_, ⟨l, rfl, hl⟩, ls, ⟨q, hq⟩, rfl⟩)
  · exact ⟨_, .insert (isKeyword_iff.mp hl) hps⟩
  · exact ⟨_, .delete (isKeyword_iff.mp hl) hps⟩
  · exact ⟨_, .select hl hq⟩

end Parts

end Parse

end TripleScript
