import Mathlib.Data.List.DropRight
import TripleScript.Text.Json
import TripleScript.Text.Numeral
import TripleScript.Text.Shortest

/-!
# Numbers in JSON

A JSON number is an integer without zeros in front, perhaps with a minus sign before
it and with a fraction, an exponent or both behind it (`Json.isNumber`). Two kinds
of numbers stand in reports. Natural numbers are integers (`isInteger_toString`).
The time a run took is a double, and whatever double it is, its text is a number
with a fraction or an exponent (`isReal_floatText`).

The latter rests on the digits of the shortest decimal (`Decimal.Proper`): there is
one, and the first is not zero. How near the decimal is to the double has no part in
it, only that the search for it never settles for zero
(`Shortest.Interval.proper_search`).
-/

namespace TripleScript.Text

/-! ## Digits of natural numbers -/

/-- A number has no zero in front of its other digits. -/
theorem head?_toDigits {n : ℕ} (h : 0 < n) : (Nat.toDigits 10 n).head? ≠ some '0' := by
  have hsmall : ∀ n < 10, 0 < n → [Nat.digitChar n].head? ≠ some '0' := by decide
  induction n using Nat.strong_induction_on with
  | _ n ih =>
    by_cases hn : n < 10
    · rw [Nat.toDigits_of_lt_base hn]
      exact hsmall n hn h
    · have hfront := ih (n / 10) (by omega) (by omega)
      rw [Nat.toDigits_of_base_le (by decide) (by omega), List.head?_append]
      cases hdigits : Nat.toDigits 10 (n / 10) with
      | nil => exact absurd hdigits Nat.toDigits_ne_nil
      | cons c cs => rwa [hdigits] at hfront

/-! ## The grammar of numbers -/

namespace Json

/-- One digit or more. -/
def isDigits (cs : List Char) : Bool :=
  cs != [] && cs.all Char.isDigit

/-- An integer without a sign. -/
def isInteger (cs : List Char) : Bool :=
  isDigits cs && (cs == ['0'] || cs.head? != some '0')

/-- An exponent behind its letter. -/
def isExponent : List Char → Bool
  | '+' :: cs => isDigits cs
  | '-' :: cs => isDigits cs
  | cs => isDigits cs

/-- What stands in front of the first character of a kind, and what stands behind it
if there is one. -/
def cutAt (p : Char → Bool) (cs : List Char) : List Char × Option (List Char) :=
  (cs.takeWhile (!p ·), (cs.dropWhile (!p ·)).tail?)

/-- A number without sign and exponent. -/
def isMantissa (cs : List Char) : Bool :=
  isInteger (cutAt (· == '.') cs).1 && (cutAt (· == '.') cs).2.all isDigits

/-- The letter in front of an exponent. -/
def marksExponent (c : Char) : Bool :=
  c == 'e' || c == 'E'

/-- A number without a sign. -/
def isUnsigned (cs : List Char) : Bool :=
  isMantissa (cutAt marksExponent cs).1 && (cutAt marksExponent cs).2.all isExponent

/-- **A number**, from all of its characters. -/
def isNumber (cs : List Char) : Bool :=
  isUnsigned (if cs.head? = some '-' then cs.tail else cs)

variable {p : Char → Bool} {cs ds : List Char}

theorem cutAt_eq_self (h : ∀ c ∈ cs, p c = false) : cutAt p cs = (cs, none) := by
  have hall : ∀ c ∈ cs, (!p c) = true := fun c hc => by rw [h c hc]; rfl
  rw [cutAt, List.takeWhile_eq_self_iff.mpr hall, List.dropWhile_eq_nil_iff.mpr hall]
  rfl

theorem cutAt_append_cons {c : Char} (h : ∀ c ∈ cs, p c = false) (hc : p c = true)
    (ds : List Char) : cutAt p (cs ++ c :: ds) = (cs, some ds) := by
  have hall : ∀ c ∈ cs, (!p c) = true := fun c hc => by rw [h c hc]; rfl
  rw [cutAt, List.takeWhile_append_of_pos hall, List.dropWhile_append_of_pos hall,
    List.takeWhile_cons_of_neg (by simp [hc]), List.dropWhile_cons_of_neg (by simp [hc]),
    List.append_nil]
  rfl

/-- What is cut has nothing in it but the two parts and the characters between them. -/
theorem mem_cutAt {c : Char} (h : c ∈ cs) :
    c ∈ (cutAt p cs).1 ∨ p c = true ∨ ∃ ds ∈ (cutAt p cs).2, c ∈ ds := by
  rw [← List.takeWhile_append_dropWhile (p := (!p ·)) (l := cs), List.mem_append] at h
  rcases h with h | h
  · exact .inl h
  · cases hback : cs.dropWhile (!p ·) with
    | nil => simp [hback] at h
    | cons d ds =>
      have hd := List.head?_dropWhile_not (!p ·) cs
      rw [hback] at h hd
      rcases List.mem_cons.mp h with rfl | h
      · exact .inr (.inl (by simpa using hd))
      · exact .inr (.inr ⟨ds, by rw [cutAt, hback]; rfl, h⟩)

theorem isDigits_iff : isDigits cs = true ↔ cs ≠ [] ∧ ∀ c ∈ cs, c.isDigit = true := by
  simp [isDigits]

theorem isDigits_of_isInteger (h : isInteger cs = true) : isDigits cs = true :=
  (Bool.and_eq_true_iff.mp h).1

/-- Digits without a zero in front are an integer. -/
theorem isInteger_of_head? (h : isDigits cs = true) (hhead : cs.head? ≠ some '0') :
    isInteger cs = true := by
  rw [isInteger, h, bne_iff_ne.mpr hhead, Bool.or_true]
  rfl

/-- A digit neither begins a fraction nor an exponent. -/
theorem not_marks_of_isDigit {c : Char} (h : c.isDigit = true) :
    (c == '.') = false ∧ marksExponent c = false := by
  have hne : ∀ d : Char, d.isDigit = false → (c == d) = false := fun d hd => by
    rw [beq_eq_false_iff_ne]
    rintro rfl
    rw [h] at hd
    cases hd
  rw [marksExponent, hne '.' (by decide), hne 'e' (by decide), hne 'E' (by decide)]
  exact ⟨rfl, rfl⟩

/-- An integer is a number, and so is one with a fraction. -/
theorem isMantissa_of_isInteger (h : isInteger cs = true) : isMantissa cs = true := by
  have hdigits := (isDigits_iff.mp (isDigits_of_isInteger h)).2
  rw [isMantissa, cutAt_eq_self fun c hc => (not_marks_of_isDigit (hdigits c hc)).1]
  exact Bool.and_eq_true_iff.mpr ⟨h, rfl⟩

theorem isMantissa_fraction (h : isInteger cs = true) (hds : isDigits ds = true) :
    isMantissa (cs ++ '.' :: ds) = true := by
  have hdigits := (isDigits_iff.mp (isDigits_of_isInteger h)).2
  rw [isMantissa, cutAt_append_cons (fun c hc => (not_marks_of_isDigit (hdigits c hc)).1) rfl]
  exact Bool.and_eq_true_iff.mpr ⟨h, hds⟩

/-- A mantissa has digits, and perhaps a point. -/
theorem isDigit_or_eq_of_mem (h : isMantissa cs = true) {c : Char} (hc : c ∈ cs) :
    c.isDigit = true ∨ c = '.' := by
  obtain ⟨hwhole, hfraction⟩ := Bool.and_eq_true_iff.mp h
  rcases mem_cutAt (p := (· == '.')) hc with hc | hc | ⟨ds, hds, hc⟩
  · exact .inl ((isDigits_iff.mp (isDigits_of_isInteger hwhole)).2 c hc)
  · exact .inr (beq_iff_eq.mp hc)
  · rw [Option.mem_def.mp hds] at hfraction
    exact .inl ((isDigits_iff.mp hfraction).2 c hc)

theorem not_marksExponent_of_mem (h : isMantissa cs = true) : ∀ c ∈ cs,
    marksExponent c = false := by
  intro c hc
  rcases isDigit_or_eq_of_mem h hc with hdigit | rfl
  · exact (not_marks_of_isDigit hdigit).2
  · rfl

/-- What begins with a mantissa has no sign in front. -/
theorem isNumber_append (h : isMantissa cs = true) (ds : List Char) :
    isNumber (cs ++ ds) = isUnsigned (cs ++ ds) := by
  cases cs with
  | nil => cases h
  | cons c cs =>
    refine congrArg isUnsigned (if_neg fun hc => ?_)
    obtain rfl : c = '-' := Option.some.inj hc
    rcases isDigit_or_eq_of_mem h List.mem_cons_self with hdigit | hpoint
    · cases hdigit
    · cases hpoint

/-- A mantissa is a number by itself. -/
theorem isNumber_of_isMantissa (h : isMantissa cs = true) : isNumber cs = true := by
  have happend := isNumber_append h []
  rw [List.append_nil] at happend
  rw [happend, isUnsigned, cutAt_eq_self (not_marksExponent_of_mem h)]
  exact Bool.and_eq_true_iff.mpr ⟨h, rfl⟩

/-- And so it is with an exponent behind it. -/
theorem isNumber_exponent (h : isMantissa cs = true) (hds : isExponent ds = true) :
    isNumber (cs ++ 'e' :: ds) = true := by
  rw [isNumber_append h, isUnsigned, cutAt_append_cons (not_marksExponent_of_mem h) rfl]
  exact Bool.and_eq_true_iff.mpr ⟨h, hds⟩

/-- A number that does not look like an integer. -/
def isReal (cs : List Char) : Bool :=
  isNumber cs && !isInteger cs

/-- An integer has digits and nothing else. -/
theorem isInteger_append_cons {c : Char} (h : c.isDigit = false) (cs ds : List Char) :
    isInteger (cs ++ c :: ds) = false := by
  rw [Bool.eq_false_iff]
  intro hinteger
  have hc := (isDigits_iff.mp (isDigits_of_isInteger hinteger)).2 c
    (List.mem_append_right cs List.mem_cons_self)
  rw [h] at hc
  cases hc

theorem isReal_fraction (h : isInteger cs = true) (hds : isDigits ds = true) :
    isReal (cs ++ '.' :: ds) = true := by
  rw [isReal, isNumber_of_isMantissa (isMantissa_fraction h hds),
    isInteger_append_cons (by decide)]
  rfl

theorem isReal_exponent (h : isMantissa cs = true) (hds : isExponent ds = true) :
    isReal (cs ++ 'e' :: ds) = true := by
  rw [isReal, isNumber_exponent h hds, isInteger_append_cons (by decide)]
  rfl

/-- The characters that a number may have. -/
def isNumberChar (c : Char) : Bool :=
  c.isDigit || ['.', 'e', 'E', '+', '-'].contains c

/-- An exponent has digits, and perhaps a sign. -/
theorem isNumberChar_of_isExponent (h : isExponent cs = true) {c : Char} (hc : c ∈ cs) :
    isNumberChar c = true := by
  have hdigits : ∀ cs : List Char, isDigits cs = true → ∀ c ∈ cs, isNumberChar c = true :=
    fun cs hcs c hc => by rw [isNumberChar, (isDigits_iff.mp hcs).2 c hc, Bool.true_or]
  unfold isExponent at h
  split at h
  · rcases List.mem_cons.mp hc with rfl | hc
    · rfl
    · exact hdigits _ h c hc
  · rcases List.mem_cons.mp hc with rfl | hc
    · rfl
    · exact hdigits _ h c hc
  · exact hdigits _ h c hc

/-- **A number has nothing else in it.** -/
theorem isNumberChar_of_isNumber (h : isNumber cs = true) {c : Char} (hc : c ∈ cs) :
    isNumberChar c = true := by
  have hunsigned : ∀ cs : List Char, isUnsigned cs = true → ∀ c ∈ cs,
      isNumberChar c = true := by
    intro cs hcs c hc
    obtain ⟨hmantissa, hexponent⟩ := Bool.and_eq_true_iff.mp hcs
    rcases mem_cutAt (p := marksExponent) hc with hc | hc | ⟨ds, hds, hc⟩
    · rcases isDigit_or_eq_of_mem hmantissa hc with hdigit | rfl
      · rw [isNumberChar, hdigit, Bool.true_or]
      · rfl
    · rcases Bool.or_eq_true_iff.mp hc with hc | hc
      · rw [beq_iff_eq.mp hc]
        rfl
      · rw [beq_iff_eq.mp hc]
        rfl
    · rw [Option.mem_def.mp hds] at hexponent
      exact isNumberChar_of_isExponent hexponent hc
  unfold isNumber at h
  split at h
  · next hsign =>
    cases cs with
    | nil => cases hc
    | cons d cs =>
      obtain rfl := Option.some.inj hsign
      rcases List.mem_cons.mp hc with rfl | hc
      · rfl
      · exact hunsigned cs h c hc
  · exact hunsigned cs h c hc

/-! ## Natural numbers -/

/-- **A natural number is written as an integer.** -/
theorem isInteger_toString (n : ℕ) : isInteger (toString n).toList = true := by
  rw [Nat.toString_eq_repr, Nat.toList_repr]
  rcases Nat.eq_zero_or_pos n with rfl | hn
  · rfl
  · refine isInteger_of_head? (isDigits_iff.mpr ⟨Nat.toDigits_ne_nil, fun c hc => ?_⟩)
      (head?_toDigits hn)
    exact Nat.isDigit_of_mem_toDigits (by decide) (by decide) hc

/-- And it is read back. -/
theorem valueOfDigits_toString (n : ℕ) : valueOfDigits 0 (toString n).toList = n := by
  rw [Nat.toString_eq_repr, Nat.toList_repr]
  exact Nat.ofDigitChars_eq_foldl.symm.trans Nat.ofDigitChars_ten_toDigits

end Json

/-! ## Doubles -/

/-- **A decimal with digits** of which the first is not zero. -/
structure Decimal.Proper (d : Decimal) : Prop where
  /-- There is a digit, and nothing but digits. -/
  digits : Json.isDigits d.digits = true
  /-- The first is not zero. -/
  head? : d.digits.head? ≠ some '0'

namespace Shortest

/-- Leaving out zeros at the end leaves the first digit. -/
theorem proper_decimal {c : ℕ} (h : 0 < c) (s : ℤ) : (decimal c s).Proper := by
  have hdigits : (decimal c s).digits = (Nat.toDigits 10 c).rdropWhile (· = '0') := rfl
  have hfront := List.rdropWhile_prefix (p := (· = '0')) (Nat.toDigits 10 c)
  have hhead := head?_toDigits h
  have hfilled : (Nat.toDigits 10 c).rdropWhile (· = '0') ≠ [] := by
    rw [ne_eq, List.rdropWhile_eq_nil_iff]
    intro hzeros
    cases hall : Nat.toDigits 10 c with
    | nil => exact Nat.toDigits_ne_nil hall
    | cons d ds =>
      rw [hall] at hzeros hhead
      exact hhead (congrArg some (of_decide_eq_true (hzeros d List.mem_cons_self)))
  constructor
  · rw [hdigits, Json.isDigits_iff]
    exact ⟨hfilled, fun c hc =>
      Nat.isDigit_of_mem_toDigits (by decide) (by decide) (hfront.subset hc)⟩
  · obtain ⟨zeros, hzeros⟩ := hfront
    rwa [← hzeros, List.head?_append_of_ne_nil _ hfilled, ← hdigits] at hhead

namespace Interval

variable {i : Interval}

/-- Zero does not read back as a number above it. -/
theorem contains_zero (h : 0 < i.low) (s : ℤ) : i.contains 0 s = false := by
  have hlow : 0 < i.low * tenTo (-s).toNat := Nat.mul_pos h (Nat.pow_pos (by decide))
  unfold contains
  dsimp only
  rw [Nat.zero_mul, Nat.zero_mul]
  split
  · rw [decide_eq_false hlow.not_ge]
    rfl
  · rw [decide_eq_false (Nat.not_lt_zero _)]
    rfl

/-- **The search does not settle for zero.** -/
theorem proper_search (hlow : 0 < i.low) (hvalue : 0 < i.value) (count tries : ℕ) :
    (i.search count tries).Proper := by
  have hpos : ∀ {c : ℕ} {s : ℤ}, i.contains c s = true → 0 < c := by
    intro c s hc
    refine Nat.pos_of_ne_zero ?_
    rintro rfl
    rw [contains_zero hlow] at hc
    cases hc
  induction tries generalizing count with
  | zero => exact proper_decimal hvalue 0
  | succ tries ih =>
    rw [search]
    split
    · next hfirst _ =>
      split
      · exact proper_decimal (hpos hfirst) _
      · exact proper_decimal (Nat.succ_pos _) _
    · next hfirst _ => exact proper_decimal (hpos hfirst) _
    · exact proper_decimal (Nat.succ_pos _) _
    · exact ih (count + 1)

end Interval

/-- The decimal of a number above zero is proper. -/
theorem proper_ofScaled {m : ℕ} (h : 0 < m) (q : ℤ) (narrow : Bool) :
    (ofScaled m q narrow).Proper := by
  have hup : 0 < twoTo (q - 2).toNat := Nat.pow_pos (by decide)
  refine Interval.proper_search (Nat.mul_pos ?_ hup) (Nat.mul_pos (by omega) hup) 1 17
  split <;> omega

/-- **The decimal of any double but zero is proper.** -/
theorem proper_ofFloat {x : Float} (h : isZero x = false) : (ofFloat x).Proper := by
  have hbits : x.toBits.toNat % 2 ^ 63 ≠ 0 := of_decide_eq_false h
  unfold ofFloat
  dsimp only
  split
  · next hexponent =>
    refine proper_ofScaled ?_ _ _
    have hexponent : x.toBits.toNat / 2 ^ 52 % 2 ^ 11 = 0 := hexponent
    show 0 < x.toBits.toNat % 2 ^ 52
    omega
  · exact proper_ofScaled (Nat.add_pos_left (Nat.pow_pos (by decide)) _) _ _

end Shortest

namespace Decimal

open Json

variable {d : Decimal}

/-- **A decimal in positional notation is a number** with a fraction. -/
theorem Proper.isReal_positional (h : d.Proper) : isReal d.positional.toList = true := by
  obtain ⟨hfilled, hdigits⟩ := isDigits_iff.mp h.digits
  have hzeros : ∀ n, ∀ c ∈ List.replicate n '0', c.isDigit = true := fun n c hc => by
    rw [List.eq_of_mem_replicate hc]
    rfl
  unfold positional
  dsimp only
  split
  · have hfraction : isDigits (List.replicate (-d.point).toNat '0' ++ d.digits) = true :=
      isDigits_iff.mpr ⟨List.append_ne_nil_of_right_ne_nil _ hfilled, fun c hc =>
        (List.mem_append.mp hc).elim (hzeros _ c) (hdigits c)⟩
    have hreal := isReal_fraction (by decide : isInteger ['0'] = true) hfraction
    simpa using hreal
  · next hpoint =>
    split
    · next hwithin =>
      have hwhole : isInteger (d.digits.take d.point.toNat) = true := by
        refine isInteger_of_head? (isDigits_iff.mpr ⟨?_, fun c hc =>
          hdigits c (List.mem_of_mem_take hc)⟩) ?_
        · rw [ne_eq, List.take_eq_nil_iff]
          exact fun hnil => hnil.elim (by omega) hfilled
        · rw [List.head?_take, if_neg (by omega)]
          exact h.head?
      have hfraction : isDigits (d.digits.drop d.point.toNat) = true :=
        isDigits_iff.mpr ⟨fun hnil => absurd (List.drop_eq_nil_iff.mp hnil) (by omega),
          fun c hc => hdigits c (List.mem_of_mem_drop hc)⟩
      have hreal := isReal_fraction hwhole hfraction
      simpa using hreal
    · have hwhole : isInteger
          (d.digits ++ List.replicate (d.point.toNat - d.digits.length) '0') = true := by
        refine isInteger_of_head? (isDigits_iff.mpr
          ⟨List.append_ne_nil_of_left_ne_nil hfilled _, fun c hc =>
            (List.mem_append.mp hc).elim (hdigits c) (hzeros _ c)⟩) ?_
        rw [List.head?_append_of_ne_nil _ hfilled]
        exact h.head?
      have hreal := isReal_fraction hwhole (by decide : isDigits ['0'] = true)
      simpa using hreal

/-- An exponent has digits, and a sign in any case. -/
theorem isExponent_point (point : ℤ) :
    isExponent ((if 0 < point then "+" else "") ++ toString (point - 1)).toList = true := by
  have hdigits : ∀ n : ℕ, isDigits (toString n).toList = true := fun n =>
    isDigits_of_isInteger (isInteger_toString n)
  cases hpoint : point - 1 with
  | ofNat n =>
    have hpoint : point - 1 = (n : ℤ) := hpoint
    rw [if_pos (by omega), String.toList_append]
    exact hdigits n
  | negSucc n =>
    rw [if_neg (by omega), String.empty_append]
    show isExponent ("-" ++ toString (n + 1)).toList = true
    rw [String.toList_append]
    exact hdigits (n + 1)

/-- **So is one with an exponent.** -/
theorem Proper.isReal_scientific (h : d.Proper) : isReal d.scientific.toList = true := by
  have hexponent := isExponent_point d.point
  have hdigits := (isDigits_iff.mp h.digits).2
  have hhead := h.head?
  unfold scientific
  generalize (if 0 < d.point then "+" else "") = sign at hexponent ⊢
  cases hd : d.digits with
  | nil => exact absurd hd (isDigits_iff.mp h.digits).1
  | cons c cs =>
    rw [hd] at hdigits hhead
    have hwhole : isInteger [c] = true :=
      isInteger_of_head? (isDigits_iff.mpr ⟨List.cons_ne_nil c [], fun c' hc' =>
        hdigits c' (List.mem_cons.mpr ((List.mem_cons.mp hc').imp_right fun h => nomatch h))⟩)
        hhead
    cases cs with
    | nil =>
      have hreal := isReal_exponent (isMantissa_of_isInteger hwhole) hexponent
      simpa using hreal
    | cons c' cs =>
      have hfraction : isDigits (c' :: cs) = true :=
        isDigits_iff.mpr ⟨List.cons_ne_nil c' cs, fun d hd =>
          hdigits d (List.mem_cons_of_mem c hd)⟩
      have hreal := isReal_exponent (isMantissa_fraction hwhole hfraction) hexponent
      simpa using hreal

end Decimal

/-- **Any double is written as a number**, and not as an integer. -/
theorem isReal_floatText (x : Float) : Json.isReal (floatText x).toList = true := by
  unfold floatText
  split
  · rfl
  · next hzero =>
    have hproper := Shortest.proper_ofFloat (Bool.eq_false_iff.mpr hzero)
    dsimp only
    split
    · exact hproper.isReal_positional
    · exact hproper.isReal_scientific

end TripleScript.Text
