import TripleScript.Cli.Config
import TripleScript.Proofs.Lists
import TripleScript.Proofs.Run.Calm
import TripleScript.Proofs.Statement.Printing

/-!
# Channel sizes

How many triples are handed on at a time is checked in three places: when it is
read from the arguments, when it is taken from a configuration file, and when a
query is planned. All three let pass the sizes up to `maxCapacity` and nothing
else, so what has been let in by one of the first two is never refused by the last
(`channel_size_in_one_range`).

A size in the arguments is a numeral of any length. It may have zeros in front, and
it may stand for a number that no machine word holds. A reader that keeps the number
in a word of 64 bits has to give up as soon as the word overflows
(`wordOfDigits?`). It loses nothing by that: further digits only make a number
larger (`le_valueOfDigits`), and a number that has outgrown a word is no size.
-/

namespace TripleScript

open Text

/-! ## Numerals in a word -/

/-- The number of a row of digits behind those of `w`, kept in a word of 64 bits, or
nothing once it does not fit. -/
def wordOfDigits? (w : UInt64) : List Char → Option UInt64
  | [] => some w
  | c :: cs =>
    if 10 * w.toNat + digitValue c < UInt64.size then
      wordOfDigits? (.ofNat (10 * w.toNat + digitValue c)) cs
    else none

/-- Further digits do not make a number smaller. -/
theorem le_valueOfDigits (n : ℕ) (cs : List Char) : n ≤ valueOfDigits n cs := by
  induction cs generalizing n with
  | nil => exact le_rfl
  | cons c cs ih =>
    calc n ≤ 10 * n + digitValue c := by omega
      _ ≤ valueOfDigits n (c :: cs) := ih _

/-- **Nothing is lost in a word** but what does not fit into it. -/
theorem map_toNat_wordOfDigits? (w : UInt64) (cs : List Char) :
    (wordOfDigits? w cs).map UInt64.toNat
      = if valueOfDigits w.toNat cs < UInt64.size then some (valueOfDigits w.toNat cs)
        else none := by
  induction cs generalizing w with
  | nil => exact (if_pos w.toNat_lt_size).symm
  | cons c cs ih =>
    show _ = if valueOfDigits (10 * w.toNat + digitValue c) cs < _ then _ else _
    by_cases h : 10 * w.toNat + digitValue c < UInt64.size
    · rw [wordOfDigits?, if_pos h, ih, UInt64.toNat_ofNat_of_lt' h]
      rfl
    · have hlarge : ¬valueOfDigits (10 * w.toNat + digitValue c) cs < UInt64.size :=
        fun hlt => h ((le_valueOfDigits _ cs).trans_lt hlt)
      rw [wordOfDigits?, if_neg h, if_neg hlarge]
      rfl

namespace ChannelSize

/-- The channel size that a text writes in decimal, read in a word of 64 bits. -/
def parseWord? (text : String) : Option ChannelSize :=
  if text.toList ≠ [] ∧ text.toList.all Char.isDigit then
    (((wordOfDigits? 0 text.toList).map UInt64.toNat).filter (· ≤ maxCapacity)).map mk
  else none

/-- **A word is wide enough** to read channel sizes. -/
theorem parseWord?_eq (text : String) : parseWord? text = parse? text := by
  unfold parseWord? parse? numeral?
  rw [map_toNat_wordOfDigits?]
  show _ = Option.map mk (Option.filter _ _)
  by_cases hdigits : text.toList ≠ [] ∧ text.toList.all Char.isDigit
  · rw [if_pos hdigits, if_pos hdigits]
    by_cases hfits : valueOfDigits (UInt64.toNat 0) text.toList < UInt64.size
    · rw [if_pos hfits]
      rfl
    · have hlarge : ¬valueOfDigits 0 text.toList ≤ maxCapacity := fun hle =>
        hfits (hle.trans_lt (by decide))
      rw [if_neg hfits, Option.filter_some, if_neg (by simpa using hlarge)]
      rfl
  · rw [if_neg hdigits, if_neg hdigits]
    rfl

/-- **A text writes a channel size** if it is a numeral whose value is in range,
however long it is. -/
theorem parse?_eq_some_iff {text : String} {c : ChannelSize} :
    parse? text = some c ↔ text ≠ "" ∧ (∀ ch ∈ text.toList, ch.isDigit)
      ∧ Nat.ofDigitChars 10 text.toList 0 ≤ maxCapacity
      ∧ c.value = Nat.ofDigitChars 10 text.toList 0 := by
  have hvalue : valueOfDigits 0 text.toList = Nat.ofDigitChars 10 text.toList 0 :=
    Nat.ofDigitChars_eq_foldl.symm
  have hnonempty : text.toList ≠ [] ↔ text ≠ "" := by
    rw [ne_eq, String.toList_eq_nil_iff]
  rw [parse?, numeral?, hvalue]
  constructor
  · intro h
    obtain ⟨n, hn, rfl⟩ := Option.map_eq_some_iff.mp h
    obtain ⟨hn, hbound⟩ := Option.filter_eq_some_iff.mp hn
    obtain ⟨⟨hfilled, hdigits⟩, hn⟩ := Option.ite_none_right_eq_some.mp hn
    obtain rfl := Option.some.inj hn
    exact ⟨hnonempty.mp hfilled, List.all_eq_true.mp hdigits, of_decide_eq_true hbound, rfl⟩
  · rintro ⟨hfilled, hdigits, hbound, hc⟩
    rw [if_pos ⟨hnonempty.mpr hfilled, List.all_eq_true.mpr hdigits⟩, Option.filter_some,
      if_pos (decide_eq_true hbound), Option.map_some, ← hc]

/-- A size in range is read back from its digits. -/
theorem parse?_toString {n : ℕ} (h : n ≤ maxCapacity) : parse? (toString n) = some ⟨n⟩ := by
  have hvalue := ofDigitChars_toString n
  exact parse?_eq_some_iff.mpr ⟨(isWord_toString n).1, fun _ => isDigit_of_mem_toString,
    hvalue.le.trans h, hvalue.symm⟩

/-- A capacity is never none. -/
theorem capacity_pos (c : ChannelSize) : 0 < c.capacity := by
  unfold capacity usual
  split
  · decide
  · next h => exact Nat.pos_of_ne_zero h

/-- The usual number is in range as well. -/
theorem capacity_le_iff {c : ChannelSize} : c.capacity ≤ maxCapacity ↔ c.value ≤ maxCapacity := by
  unfold capacity usual
  split
  · next h =>
    rw [h]
    decide
  · exact Iff.rfl

end ChannelSize

/-! ## Sizes in a configuration file -/

namespace Cli

/-- **An integer is a channel size** if it is in range. -/
theorem channelSize?_eq_some_iff {i : ℤ} {c : ChannelSize} :
    channelSize? i = some c ↔ i = c.value ∧ c.value ≤ maxCapacity := by
  unfold channelSize?
  constructor
  · intro h
    obtain ⟨⟨hnonneg, hbound⟩, hc⟩ := Option.ite_none_right_eq_some.mp h
    obtain rfl := Option.some.inj hc
    have hi : (i.toNat : ℤ) = i := Int.toNat_of_nonneg hnonneg
    exact ⟨hi.symm, Int.ofNat_le.mp (hi.le.trans hbound)⟩
  · rintro ⟨rfl, hbound⟩
    rw [if_pos ⟨Int.natCast_nonneg _, Int.ofNat_le.mpr hbound⟩, Int.toNat_natCast]

/-- A value that is there has passed its check. -/
theorem checked_eq_ok_iff {α β : Type} {key : String} {shown : α → String}
    {check : α → Option β} {a? : Option α} {b? : Option β} :
    checked key shown check a? = .ok b? ↔ a?.map check = b?.map some := by
  cases a? with
  | none => cases b? <;> simp [checked]
  | some a => cases hcheck : check a <;> cases b? <;> simp [checked, hcheck]

/-- **A table that makes sense keeps its channel size**, if it has one, and that is
in range. -/
theorem channelSize_of_check {raw : RawDefaults} {d : Defaults} (h : raw.check = .ok d) :
    raw.channelSize = d.channelSize.map (fun c => (c.value : ℤ))
      ∧ ∀ c ∈ d.channelSize, c.value ≤ maxCapacity := by
  unfold RawDefaults.check at h
  obtain ⟨format, -, h⟩ := bind_eq_ok_iff.mp h
  obtain ⟨theme, -, h⟩ := bind_eq_ok_iff.mp h
  obtain ⟨channelSize, hsize, h⟩ := bind_eq_ok_iff.mp h
  cases h
  rw [checked_eq_ok_iff] at hsize
  dsimp only
  cases hraw : raw.channelSize with
  | none =>
    cases channelSize with
    | none => exact ⟨rfl, nofun⟩
    | some c => simp [hraw] at hsize
  | some i =>
    cases channelSize with
    | none => simp [hraw] at hsize
    | some c =>
      rw [hraw] at hsize
      obtain ⟨rfl, hbound⟩ := channelSize?_eq_some_iff.mp (Option.some.inj hsize)
      refine ⟨rfl, fun c' hc' => ?_⟩
      cases hc'
      exact hbound

/-- Any size in range can be set. -/
theorem check_channelSize {c : ChannelSize} (h : c.value ≤ maxCapacity) :
    RawDefaults.check { channelSize := some (c.value : ℤ) }
      = .ok { channelSize := some c } := by
  have hsize : channelSize? (c.value : ℤ) = some c := channelSize?_eq_some_iff.mpr ⟨rfl, h⟩
  simp [RawDefaults.check, checked, hsize, pure, Except.pure, bind, Except.bind]

end Cli

/-! ## Sizes in a plan -/

/-- **A query is refused for its capacity** if that is out of range, and the store
is not asked then. -/
theorem Query.plan_eq_channelCapacity_iff {q : Query} {capacity requested most : ℕ}
    {s s' : Session} :
    q.plan capacity s = .error (.channelCapacity requested most) s'
      ↔ s' = s ∧ maxCapacity < capacity ∧ requested = capacity ∧ most = maxCapacity := by
  have hone : ¬maxCapacity < 1 := by decide
  unfold Query.plan
  dsimp only
  by_cases hcapacity : maxCapacity < capacity
  · have hmax : max capacity 1 = capacity := max_eq_left (by omega)
    rw [hmax, if_pos hcapacity]
    constructor
    · intro h
      cases h
      exact ⟨rfl, hcapacity, rfl, rfl⟩
    · rintro ⟨rfl, -, rfl, rfl⟩
      rfl
  · refine iff_of_false (fun h => ?_) fun h => hcapacity h.2.1
    rw [if_neg (by omega)] at h
    split at h
    · cases h
    · simp only [bind, EStateM.bind, EStateM.adaptExcept] at h
      cases hscans : estimateScans 0 q.patterns s <;> rw [hscans] at h <;> cases h

/-- A command is not refused for a capacity in range, and no write is refused for
any. -/
theorem Command.plan_ne_channelCapacity {capacity : ℕ} (h : capacity ≤ maxCapacity)
    (command : Command) (s : Session) (requested most : ℕ) (s' : Session) :
    command.plan capacity s ≠ .error (.channelCapacity requested most) s' := by
  have hwrite : ∀ verb p,
      (do refuseReadOnly verb; return p : SessionM PlanError Plan) s
        ≠ .error (.channelCapacity requested most) s' := by
    intro verb p hplan
    rw [plan_write_apply] at hplan
    split at hplan <;> cases hplan
  cases command with
  | insert ts => exact hwrite .insert (.insert ts)
  | delete ts => exact hwrite .delete (.delete ts)
  | select q =>
    intro hplan
    simp only [Command.plan, bind, EStateM.bind] at hplan
    cases hquery : q.plan capacity s with
    | ok p s₁ =>
      rw [hquery] at hplan
      cases hplan
    | error e s₁ =>
      rw [hquery] at hplan
      cases hplan
      exact (Query.plan_eq_channelCapacity_iff.mp hquery).2.1.not_ge h

/-- **What is planned for a channel size** hands on as many triples at a time as the
size says. -/
theorem SelectPlan.capacity_of_plan {command : Command} {c : ChannelSize} {p : SelectPlan}
    {s s' : Session} (h : command.plan c.capacity s = .ok (.select p) s') :
    p.capacity = c.capacity := by
  obtain ⟨q, rfl⟩ := exists_query_of_plan h
  obtain ⟨p', hp, hquery⟩ := exists_plan_of_select h
  cases hp
  rw [(Query.plannedAs_of_plan hquery).capacity]
  exact max_eq_left c.capacity_pos

/-- **A channel size is checked once and for all.** A text writes one if and only if
it consists of digits, at least one, and their value has no more than 61 bits,
however many digits there are; a reader that has only words of 64 bits to keep the
number in reads the same. A number in range is read back from its digits. A
configuration file may set the same sizes and no others. And no command is ever
refused, on whatever store, for a size in range: what is planned hands on as many
triples at a time as the size says, or 64 if it says zero. -/
theorem channel_size_in_one_range :
    (∀ text c, ChannelSize.parse? text = some c ↔ text ≠ "" ∧ (∀ ch ∈ text.toList, ch.isDigit)
        ∧ Nat.ofDigitChars 10 text.toList 0 ≤ 2 ^ 61 - 1
        ∧ c.value = Nat.ofDigitChars 10 text.toList 0)
      ∧ (∀ text, ChannelSize.parseWord? text = ChannelSize.parse? text)
      ∧ (∀ n ≤ 2 ^ 61 - 1, ChannelSize.parse? (toString n) = some ⟨n⟩)
      ∧ (∀ (raw : Cli.RawDefaults) d, raw.check = .ok d →
        raw.channelSize = d.channelSize.map fun c => (c.value : ℤ))
      ∧ (∀ c : ChannelSize, (∃ (raw : Cli.RawDefaults) (d : Cli.Defaults),
        raw.check = .ok d ∧ d.channelSize = some c) ↔ c.value ≤ 2 ^ 61 - 1)
      ∧ ∀ c : ChannelSize, c.value ≤ 2 ^ 61 - 1 → ∀ (command : Command) (s : Session),
        (∀ requested most s',
            command.plan c.capacity s ≠ .error (.channelCapacity requested most) s')
          ∧ ∀ p s', command.plan c.capacity s = .ok (.select p) s' →
            p.capacity = (if c.value = 0 then 64 else c.value) ∧ p.capacity ≠ 0 := by
  have hrange : 2 ^ 61 - 1 = maxCapacity := rfl
  rw [hrange]
  refine ⟨fun _ _ => ChannelSize.parse?_eq_some_iff, ChannelSize.parseWord?_eq,
    fun _ => ChannelSize.parse?_toString, fun _ _ h => (Cli.channelSize_of_check h).1,
    fun c => ⟨?_, fun h => ⟨_, _, Cli.check_channelSize h, rfl⟩⟩,
    fun c hc command s => ⟨?_, fun p s' hplan => ?_⟩⟩
  · rintro ⟨raw, d, hcheck, hd⟩
    exact (Cli.channelSize_of_check hcheck).2 c hd
  · exact Command.plan_ne_channelCapacity (ChannelSize.capacity_le_iff.mpr hc) command s
  · rw [SelectPlan.capacity_of_plan hplan]
    exact ⟨rfl, c.capacity_pos.ne'⟩

/-- Zeros in front of a channel size make no difference, and a number that fits into
a word may still be too large. -/
example :
    ChannelSize.parse? "000000000000000000000002305843009213693951"
        = some ⟨2305843009213693951⟩
      ∧ ChannelSize.parse? "2305843009213693952" = none := by
  decide +kernel

end TripleScript
