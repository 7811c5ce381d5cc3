import TripleScript.Proofs.Text.JsonNumber
import TripleScript.Text.Hex

/-!
# Reading JSON

A reader of JSON goes through a text character by character (`Json.Scan.next?`) and
puts the characters together to tokens. From token to token, `Json.State` is what it
has of the lists and objects that are still open, and what may come next. The reader
knows blanks between tokens and every way of escaping a character but as a pair of
surrogates. It does not know `null`. A text is refused if an object in it has a key
twice, since readers do not agree on what that means.

Some values have no meaning as JSON: a number may be given by anything, and a key may
come twice. All others (`Json.Sound`) are read back from their compact forms
(`Json.Sound.read?_render`). Whatever characters the strings in it have, a compact form
has no control character (`Json.Sound.printable_render`).
-/

namespace TripleScript.Text.Json

/-! ## Tokens -/

/-- What a text consists of. -/
inductive Token where
  /-- The bracket that opens a list. -/
  | openList
  /-- The bracket that closes it. -/
  | closeList
  /-- The brace that opens an object. -/
  | openObject
  /-- The brace that closes it. -/
  | closeObject
  /-- What separates items and fields. -/
  | comma
  /-- What separates a key and its value. -/
  | colon
  /-- A value without parts. -/
  | scalar (j : Json)

/-- The tokens of one character. -/
def mark? : Char → Option Token
  | '[' => some .openList
  | ']' => some .closeList
  | '\x7b' => some .openObject
  | '\x7d' => some .closeObject
  | ',' => some .comma
  | ':' => some .colon
  | _ => none

/-- The blanks. -/
def isSpace (c : Char) : Bool :=
  [' ', '\t', '\n', '\r'].contains c

/-- The characters of words: all but blanks, the quote and the tokens of one
character. -/
def isWordChar (c : Char) : Bool :=
  !isSpace c && c != '"' && (mark? c).isNone

/-- The value that a word stands for. -/
def word? (cs : List Char) : Option Json :=
  if cs = ['t', 'r', 'u', 'e'] then some (.flag true)
  else if cs = ['f', 'a', 'l', 's', 'e'] then some (.flag false)
  else if isInteger cs then some (.natural (valueOfDigits 0 cs))
  else if isNumber cs then some (.numeral (String.ofList cs))
  else none

/-- The character that a letter behind a backslash stands for. -/
def letter? : Char → Option Char
  | '"' => some '"'
  | '\\' => some '\\'
  | '/' => some '/'
  | 'b' => some '\x08'
  | 'f' => some '\x0c'
  | 'n' => some '\n'
  | 'r' => some '\r'
  | 't' => some '\t'
  | _ => none

/-! ## The reader -/

/-- A list or an object that is still open. -/
inductive Frame where
  /-- A list with some items, last item first. -/
  | items (before : List Json)
  /-- An object with some fields, last field first, and the key of the next. -/
  | fields (before : List (String × Json)) (key : String)

/-- What a reader has and what may come next. -/
inductive State where
  /-- A value, or the end of a list without items. -/
  | value (frames : List Frame)
  /-- A key, or the end of an object without fields. -/
  | key (before : List (String × Json)) (frames : List Frame)
  /-- The colon behind a key. -/
  | colon (before : List (String × Json)) (key : String) (frames : List Frame)
  /-- What may stand behind a value. -/
  | behind (j : Json) (frames : List Frame)

/-- **The next token**, if it may come. -/
def State.take? : State → Token → Option State
  | .value frames, .openList => some (.value (.items [] :: frames))
  | .value (.items [] :: frames), .closeList => some (.behind (.list []) frames)
  | .value frames, .openObject => some (.key [] frames)
  | .value frames, .scalar j => some (.behind j frames)
  | .key [] frames, .closeObject => some (.behind (.object []) frames)
  | .key before frames, .scalar (.text name) => some (.colon before name frames)
  | .colon before name frames, .colon => some (.value (.fields before name :: frames))
  | .behind j (.items before :: frames), .comma => some (.value (.items (j :: before) :: frames))
  | .behind j (.items before :: frames), .closeList =>
    some (.behind (.list (j :: before).reverse) frames)
  | .behind j (.fields before name :: frames), .comma =>
    some (.key ((name, j) :: before) frames)
  | .behind j (.fields before name :: frames), .closeObject =>
    let fields := ((name, j) :: before).reverse
    if (fields.map Prod.fst).Nodup then some (.behind (.object fields) frames) else none
  | _, _ => none

/-- Where a reader is in a token. What it has read of the token comes last character
first. -/
inductive Place where
  /-- In none. -/
  | between
  /-- In a word. -/
  | word (seen : List Char)
  /-- In a string. -/
  | string (seen : List Char)
  /-- In a string, behind a backslash. -/
  | escape (seen : List Char)
  /-- In a string, in the digits of a character, of which these have been read. -/
  | code (seen digits : List Char)

/-- A reader in the middle of a text. -/
structure Scan where
  /-- Where it is in a token. -/
  place : Place
  /-- What it has of the tokens before. -/
  state : State

namespace Scan

/-- What a reader has if no token goes on. Only a word ends where nothing says so. -/
def settle? (s : Scan) : Option State :=
  match s.place with
  | .between => some s.state
  | .word seen => (word? seen.reverse).bind fun j => s.state.take? (.scalar j)
  | _ => none

/-- A character that does not belong to the token before it. -/
def begin? (p : State) (c : Char) : Option Scan :=
  if isSpace c then some ⟨.between, p⟩
  else if c = '"' then some ⟨.string [], p⟩
  else match mark? c with
    | some t => (p.take? t).map (⟨.between, ·⟩)
    | none => some ⟨.word [c], p⟩

/-- **The next character**, if it may come. -/
def next? (s : Scan) (c : Char) : Option Scan :=
  match s.place with
  | .between => begin? s.state c
  | .word seen =>
    if isWordChar c then some { s with place := .word (c :: seen) }
    else s.settle?.bind (begin? · c)
  | .string seen =>
    if c = '"' then
      (s.state.take? (.scalar (.text (String.ofList seen.reverse)))).map (⟨.between, ·⟩)
    else if c = '\\' then some { s with place := .escape seen }
    else if c.toNat < 0x20 then none
    else some { s with place := .string (c :: seen) }
  | .escape seen =>
    if c = 'u' then some { s with place := .code seen [] }
    else (letter? c).map fun c => { s with place := .string (c :: seen) }
  | .code seen digits =>
    if digits.length < 3 then some { s with place := .code seen (digits ++ [c]) }
    else (charOfHex? (digits ++ [c])).map fun c => { s with place := .string (c :: seen) }

end Scan

/-- What a reader has behind some more characters. -/
def State.read (p : State) (cs : List Char) : Option State :=
  (cs.foldlM Scan.next? ⟨.between, p⟩).bind Scan.settle?

/-- **The value that a text stands for.** -/
def read? (cs : List Char) : Option Json :=
  match (State.value []).read cs with
  | some (.behind j []) => some j
  | _ => none

/-! ## Reading in steps -/

variable {p q : State} {cs ds : List Char}

/-- A character that does not belong to words ends the token before it. -/
theorem Scan.next?_of_settle? {s : Scan} {c : Char} (h : s.settle? = some q)
    (hc : isWordChar c = false) : s.next? c = begin? q c := by
  obtain ⟨place, p⟩ := s
  cases place with
  | between => exact congrArg (begin? · c) (Option.some.inj h)
  | word seen =>
    show (if isWordChar c then _ else (settle? ⟨.word seen, p⟩).bind (begin? · c)) = _
    rw [hc, h]
    rfl
  | string | escape | code => cases h

/-- **A text is read part by part**, if it is cut where a word cannot go on. -/
theorem State.read_append (h : p.read cs = some q)
    (hds : ∀ c ∈ ds.head?, isWordChar c = false) : p.read (cs ++ ds) = q.read ds := by
  obtain ⟨s, hs, hsettle⟩ := Option.bind_eq_some_iff.mp h
  unfold State.read
  rw [List.foldlM_append, hs]
  cases ds with
  | nil => exact hsettle
  | cons c ds =>
    show (List.foldlM Scan.next? s (c :: ds)).bind Scan.settle? = _
    rw [List.foldlM_cons, List.foldlM_cons, Scan.next?_of_settle? hsettle (hds c rfl)]
    rfl

theorem Scan.begin?_mark {c : Char} {t : Token} (h : mark? c = some t) (p : State) :
    begin? p c = (p.take? t).map (⟨.between, ·⟩) := by
  have hspace : isSpace c = false := by
    rw [Bool.eq_false_iff]
    intro hc
    have hc : c ∈ [' ', '\t', '\n', '\r'] := List.contains_iff_mem.mp hc
    simp only [List.mem_cons, List.not_mem_nil, or_false] at hc
    rcases hc with rfl | rfl | rfl | rfl <;> cases h
  have hquote : c ≠ '"' := by
    rintro rfl
    cases h
  rw [begin?, hspace, if_neg Bool.false_ne_true, if_neg hquote, h]

theorem Scan.begin?_word {c : Char} (h : isWordChar c = true) (p : State) :
    begin? p c = some ⟨.word [c], p⟩ := by
  simp only [isWordChar, Bool.and_eq_true, Bool.not_eq_true', bne_iff_ne, ne_eq,
    Option.isNone_iff_eq_none] at h
  obtain ⟨⟨hspace, hquote⟩, hmark⟩ := h
  rw [begin?, hspace, if_neg Bool.false_ne_true, if_neg hquote, hmark]

/-- A token of one character. -/
theorem State.read_mark {c : Char} {t : Token} (h : mark? c = some t) (p : State)
    (cs : List Char) : p.read (c :: cs) = (p.take? t).bind (·.read cs) := by
  have hnext : Scan.next? ⟨.between, p⟩ c = (p.take? t).map (⟨.between, ·⟩) :=
    Scan.begin?_mark h p
  unfold State.read
  rw [List.foldlM_cons, hnext]
  cases p.take? t <;> rfl

/-- A word goes on with its characters, -/
theorem foldlM_word (h : ∀ c ∈ cs, isWordChar c = true) (seen : List Char) (p : State) :
    cs.foldlM Scan.next? ⟨.word seen, p⟩ = some ⟨.word (cs.reverse ++ seen), p⟩ := by
  induction cs generalizing seen with
  | nil => rfl
  | cons c cs ih =>
    have hnext : Scan.next? ⟨.word seen, p⟩ c = some ⟨.word (c :: seen), p⟩ :=
      if_pos (h c List.mem_cons_self)
    rw [List.foldlM_cons, hnext, List.reverse_cons, List.append_assoc]
    exact ih (fun d hd => h d (List.mem_cons_of_mem c hd)) (c :: seen)

/-- **and is taken at its end.** -/
theorem State.read_word (hfilled : cs ≠ []) (h : ∀ c ∈ cs, isWordChar c = true) (p : State) :
    p.read cs = (word? cs).bind fun j => p.take? (.scalar j) := by
  cases cs with
  | nil => exact absurd rfl hfilled
  | cons c cs =>
    have hnext : Scan.next? ⟨.between, p⟩ c = some ⟨.word [c], p⟩ :=
      Scan.begin?_word (h c List.mem_cons_self) p
    unfold State.read
    rw [List.foldlM_cons, hnext]
    show (List.foldlM Scan.next? ⟨.word [c], p⟩ cs).bind Scan.settle? = _
    rw [foldlM_word fun d hd => h d (List.mem_cons_of_mem c hd)]
    show (word? (cs.reverse ++ [c]).reverse).bind _ = _
    rw [List.reverse_append, List.reverse_reverse]
    rfl

/-! ## Strings -/

/-- A control character is escaped by its number. -/
theorem charOfHex?_control : ∀ n < 0x20,
    charOfHex? ['0', '0', hexDigit (n / 16), hexDigit (n % 16)] = some (Char.ofNat n) := by
  decide

/-- **An escaped character is read as the character.** -/
theorem foldlM_escapeChar (seen : List Char) (p : State) (c : Char) :
    (escapeChar c).foldlM Scan.next? ⟨.string seen, p⟩ = some ⟨.string (c :: seen), p⟩ := by
  unfold escapeChar
  split_ifs with hquote hslash hb hf hn hr ht hcontrol
  · rw [hquote]; rfl
  · rw [hslash]; rfl
  · rw [hb]; rfl
  · rw [hf]; rfl
  · rw [hn]; rfl
  · rw [hr]; rfl
  · rw [ht]; rfl
  · have hcode := charOfHex?_control c.toNat hcontrol
    rw [Char.ofNat_toNat] at hcode
    show ((charOfHex? ['0', '0', _, _]).map _).bind _ = _
    rw [hcode]
    rfl
  · have hnext : Scan.next? ⟨.string seen, p⟩ c = some ⟨.string (c :: seen), p⟩ := by
      show (if c = '"' then _ else if c = '\\' then _ else if c.toNat < 0x20 then _ else _) = _
      rw [if_neg hquote, if_neg hslash, if_neg hcontrol]
    rw [List.foldlM_cons, hnext]
    rfl

/-- So a string goes on with its characters, -/
theorem foldlM_flatMap_escapeChar (cs seen : List Char) (p : State) :
    (cs.flatMap escapeChar).foldlM Scan.next? ⟨.string seen, p⟩
      = some ⟨.string (cs.reverse ++ seen), p⟩ := by
  induction cs generalizing seen with
  | nil => rfl
  | cons c cs ih =>
    rw [List.flatMap_cons, List.foldlM_append, foldlM_escapeChar, List.reverse_cons,
      List.append_assoc]
    exact ih (c :: seen)

/-- **and is taken when it is closed.** -/
theorem State.read_quote (p : State) (s : String) :
    p.read (quote s).toList = p.take? (.scalar (.text s)) := by
  have hopened : Scan.next? ⟨.between, p⟩ '"' = some ⟨.string [], p⟩ := rfl
  have hclosed : ∀ seen, Scan.next? ⟨.string seen, p⟩ '"'
      = (p.take? (.scalar (.text (String.ofList seen.reverse)))).map (⟨.between, ·⟩) :=
    fun _ => rfl
  unfold State.read quote
  rw [String.toList_ofList, List.cons_append, List.foldlM_cons, hopened]
  show (List.foldlM Scan.next? ⟨.string [], p⟩ _).bind Scan.settle? = _
  rw [List.foldlM_append, foldlM_flatMap_escapeChar]
  show ((Scan.next? _ '"').bind _).bind _ = _
  rw [hclosed, List.append_nil, List.reverse_reverse, String.ofList_toList]
  cases p.take? (.scalar (.text s)) <;> rfl

/-! ## Lists and objects -/

/-- **What is separated by commas is read one by one.** The reader is in a state
before each of them and in a state behind them, according to those that it has read,
and a comma leads from the latter to the former. -/
theorem State.read_intercalate {α : Type} {written : α → String}
    (before behind : List α → State) (hnone : behind [] = before [])
    (hcomma : ∀ x xs, (behind (x :: xs)).take? .comma = some (before (x :: xs))) {xs : List α}
    (h : ∀ x ∈ xs, ∀ ys, (before ys).read (written x).toList = some (behind (x :: ys))) :
    (before []).read (",".intercalate (xs.map written)).toList = some (behind xs.reverse) := by
  induction xs using List.reverseRecOn with
  | nil => exact congrArg some hnone.symm
  | append_singleton xs x ih =>
    have hlast := h x (List.mem_append_right xs List.mem_cons_self)
    rw [List.map_append, List.map_singleton, List.reverse_append]
    by_cases hxs : xs = []
    · subst hxs
      rw [List.map_nil, List.nil_append, String.intercalate_singleton]
      exact hlast []
    · have hfirst := ih fun y hy => h y (List.mem_append_left [x] hy)
      rw [String.intercalate_append_of_ne_nil (by simpa using hxs) (List.cons_ne_nil _ _),
        String.intercalate_singleton, String.append_assoc, String.toList_append,
        String.toList_append, State.read_append hfirst (by rintro c ⟨⟩; rfl)]
      show (behind xs.reverse).read (',' :: (written x).toList) = _
      obtain ⟨y, ys, hys⟩ := List.exists_cons_of_ne_nil (mt List.reverse_eq_nil_iff.mp hxs)
      rw [State.read_mark rfl, hys, hcomma, ← hys]
      exact hlast xs.reverse

theorem renderItems_eq (items : List Json) : renderItems items = items.map render := by
  induction items with
  | nil => rfl
  | cons j items ih => exact congrArg (j.render :: ·) ih

/-- The compact form of a field. -/
def renderField (f : String × Json) : String :=
  quote f.1 ++ ":" ++ f.2.render

theorem renderFields_eq (fields : List (String × Json)) :
    renderFields fields = fields.map renderField := by
  induction fields with
  | nil => rfl
  | cons f fields ih => exact congrArg (renderField f :: ·) ih

/-- **A value that has a meaning as JSON**: numbers given by their digits are numbers,
and no object has a key twice. -/
inductive Sound : Json → Prop
  | text (s : String) : Sound (.text s)
  | natural (n : ℕ) : Sound (.natural n)
  | numeral {digits : String} (h : isReal digits.toList = true) : Sound (.numeral digits)
  | flag (b : Bool) : Sound (.flag b)
  | list {items : List Json} (h : ∀ j ∈ items, Sound j) : Sound (.list items)
  | object {fields : List (String × Json)} (h : ∀ f ∈ fields, Sound f.2)
    (hkeys : (fields.map Prod.fst).Nodup) : Sound (.object fields)

namespace State

variable (frames : List Frame)

/-- What a reader has behind some items of a list, last item first. -/
def behindItems : List Json → State
  | [] => .value (.items [] :: frames)
  | j :: before => .behind j (.items before :: frames)

/-- What a reader has behind some fields of an object, last field first. -/
def behindFields : List (String × Json) → State
  | [] => .key [] frames
  | (name, j) :: before => .behind j (.fields before name :: frames)

/-- A list may end behind its items, -/
theorem take?_behindItems (js : List Json) :
    (behindItems frames js).take? .closeList = some (.behind (.list js.reverse) frames) := by
  cases js <;> rfl

/-- and an object behind its fields. -/
theorem take?_behindFields (fs : List (String × Json)) (h : (fs.reverse.map Prod.fst).Nodup) :
    (behindFields frames fs).take? .closeObject
      = some (.behind (.object fs.reverse) frames) := by
  cases fs with
  | nil => rfl
  | cons f fs => exact if_pos h

end State

/-- The characters of numbers are characters of words. -/
theorem isWordChar_of_isNumberChar {c : Char} (h : isNumberChar c = true) :
    isWordChar c = true := by
  have hne : ∀ d, isNumberChar d = false → c ≠ d := fun d hd => by
    rintro rfl
    rw [h] at hd
    cases hd
  unfold isWordChar mark?
  split
  · exact absurd rfl (hne '[' (by decide))
  · exact absurd rfl (hne ']' (by decide))
  · exact absurd rfl (hne '\x7b' (by decide))
  · exact absurd rfl (hne '\x7d' (by decide))
  · exact absurd rfl (hne ',' (by decide))
  · exact absurd rfl (hne ':' (by decide))
  · have hspace : isSpace c = false := by
      simp [isSpace, hne ' ' (by decide), hne '\t' (by decide), hne '\n' (by decide),
        hne '\r' (by decide)]
    rw [hspace, bne_iff_ne.mpr (hne '"' (by decide))]
    rfl

/-- **A number is read as a word.** -/
theorem State.read_number (h : isNumber cs = true) (p : State) :
    p.read cs = (word? cs).bind fun j => p.take? (.scalar j) := by
  refine State.read_word ?_ (fun c hc => isWordChar_of_isNumberChar
    (isNumberChar_of_isNumber h hc)) p
  rintro rfl
  cases h

/-- A number is not a truth value, and a natural number if it is an integer. -/
theorem word?_of_isNumber (h : isNumber cs = true) : word? cs
    = some (if isInteger cs then .natural (valueOfDigits 0 cs)
      else .numeral (String.ofList cs)) := by
  have htrue : cs ≠ ['t', 'r', 'u', 'e'] := by
    rintro rfl
    cases h
  have hfalse : cs ≠ ['f', 'a', 'l', 's', 'e'] := by
    rintro rfl
    cases h
  rw [word?, if_neg htrue, if_neg hfalse, h]
  split <;> rfl

/-- **A value is read from its compact form**, whatever is open around it. -/
theorem Sound.read_render {j : Json} (h : j.Sound) (frames : List Frame) :
    (State.value frames).read j.render.toList = some (.behind j frames) := by
  induction h generalizing frames with
  | text s => exact State.read_quote (.value frames) s
  | natural n =>
    have hinteger := isInteger_toString n
    have hnumber := isNumber_of_isMantissa (isMantissa_of_isInteger hinteger)
    rw [render, State.read_number hnumber, word?_of_isNumber hnumber, if_pos hinteger,
      valueOfDigits_toString]
    rfl
  | numeral hdigits =>
    obtain ⟨hnumber, hinteger⟩ := Bool.and_eq_true_iff.mp hdigits
    rw [render, State.read_number hnumber, word?_of_isNumber hnumber,
      if_neg (by simpa using hinteger), String.ofList_toList]
    rfl
  | flag b => cases b <;> rfl
  | @list items h ih =>
    have hitems : (State.value (.items [] :: frames)).read
        (",".intercalate (items.map render)).toList
        = some (State.behindItems frames items.reverse) :=
      State.read_intercalate (fun js => .value (.items js :: frames)) (State.behindItems frames)
        rfl (fun _ _ => rfl) fun j hj js => ih j hj (.items js :: frames)
    rw [render, renderItems_eq, String.append_assoc, String.toList_append, String.toList_append]
    show (State.value frames).read ('[' :: _) = _
    rw [State.read_mark rfl]
    show (State.value (.items [] :: frames)).read (_ ++ [']']) = _
    rw [State.read_append hitems (by rintro c ⟨⟩; rfl), State.read_mark rfl,
      State.take?_behindItems, List.reverse_reverse]
    rfl
  | @object fields h hkeys ih =>
    have hfield : ∀ f ∈ fields, ∀ fs, (State.key fs frames).read (renderField f).toList
        = some (State.behindFields frames (f :: fs)) := by
      intro f hf fs
      have hname : (State.key fs frames).read (quote f.1).toList = some (.colon fs f.1 frames) :=
        (State.read_quote (.key fs frames) f.1).trans (by cases fs <;> rfl)
      rw [renderField, String.append_assoc, String.toList_append, String.toList_append]
      show (State.key fs frames).read (_ ++ ':' :: f.2.render.toList) = _
      rw [State.read_append hname (by rintro c ⟨⟩; rfl), State.read_mark rfl]
      exact ih f hf (.fields fs f.1 :: frames)
    have hfields : (State.key [] frames).read (",".intercalate (fields.map renderField)).toList
        = some (State.behindFields frames fields.reverse) :=
      State.read_intercalate (fun fs => .key fs frames) (State.behindFields frames) rfl
        (fun _ _ => rfl) hfield
    have hclosed := State.take?_behindFields frames fields.reverse
      (by rwa [List.reverse_reverse])
    rw [render, renderFields_eq, String.append_assoc, String.toList_append, String.toList_append]
    show (State.value frames).read ('\x7b' :: _) = _
    rw [State.read_mark rfl]
    show (State.key [] frames).read (_ ++ ['\x7d']) = _
    rw [State.read_append hfields (by rintro c ⟨⟩; rfl), State.read_mark rfl, hclosed,
      List.reverse_reverse]
    rfl

/-- **A value is read back from its compact form.** -/
theorem Sound.read?_render {j : Json} (h : j.Sound) : read? j.render.toList = some j := by
  rw [read?, h.read_render []]

/-! ## What stands in compact forms -/

/-- A text without control characters. -/
def Printable (s : String) : Prop :=
  ∀ c ∈ s.toList, 0x20 ≤ c.toNat

instance (s : String) : Decidable (Printable s) :=
  List.decidableBAll (fun c : Char => 0x20 ≤ c.toNat) s.toList

namespace Printable

theorem append {s t : String} (hs : Printable s) (ht : Printable t) : Printable (s ++ t) := by
  intro c hc
  rw [String.toList_append] at hc
  exact (List.mem_append.mp hc).elim (hs c) (ht c)

theorem intercalate {texts : List String} (h : ∀ s ∈ texts, Printable s) :
    Printable (",".intercalate texts) := by
  induction texts with
  | nil => decide
  | cons s texts ih =>
    have hs := h s List.mem_cons_self
    by_cases hnil : texts = []
    · rwa [hnil, String.intercalate_singleton]
    · rw [String.intercalate_cons_of_ne_nil hnil]
      exact (hs.append (by decide)).append (ih fun t ht => h t (List.mem_cons_of_mem s ht))

/-- A number has none. -/
theorem of_isNumber {s : String} (h : isNumber s.toList = true) : Printable s := by
  intro c hc
  have hchar := isNumberChar_of_isNumber h hc
  by_contra hcontrol
  have hnone : ∀ n < 0x20, isNumberChar (Char.ofNat n) = false := by decide
  have hc := hnone c.toNat (Nat.lt_of_not_le hcontrol)
  rw [Char.ofNat_toNat, hchar] at hc
  cases hc

/-- Escaping leaves none. -/
theorem quote (s : String) : Printable (quote s) := by
  have hdigit : ∀ n < 16, 0x20 ≤ (hexDigit n).toNat := by decide
  have hescape : ∀ d, (escapeChar d).all (0x20 ≤ ·.toNat) = true := by
    intro d
    unfold escapeChar
    split_ifs with hquote hslash hb hf hn hr ht hcontrol
    · rfl
    · rfl
    · rfl
    · rfl
    · rfl
    · rfl
    · rfl
    · have hhigh := hdigit (d.toNat / 16) (by omega)
      have hlow := hdigit (d.toNat % 16) (by omega)
      show [hexDigit (d.toNat / 16), hexDigit (d.toNat % 16)].all (0x20 ≤ ·.toNat) = true
      simp only [List.all_cons, List.all_nil, decide_eq_true hhigh, decide_eq_true hlow]
      rfl
    · simpa using Nat.le_of_not_lt hcontrol
  intro c hc
  rw [Json.quote, String.toList_ofList, List.mem_append, List.mem_cons, List.mem_flatMap,
    List.mem_singleton] at hc
  rcases hc with (rfl | ⟨d, -, hc⟩) | rfl
  · decide
  · exact of_decide_eq_true (List.all_eq_true.mp (hescape d) c hc)
  · decide

end Printable

/-- **There is no control character in a compact form.** -/
theorem Sound.printable_render {j : Json} (h : j.Sound) : Printable j.render := by
  induction h with
  | text s => exact Printable.quote s
  | natural n =>
    exact .of_isNumber (isNumber_of_isMantissa (isMantissa_of_isInteger (isInteger_toString n)))
  | numeral hdigits => exact .of_isNumber (Bool.and_eq_true_iff.mp hdigits).1
  | flag b => cases b <;> decide
  | list h ih =>
    rw [render, renderItems_eq]
    refine (Printable.append (by decide) (.intercalate ?_)).append (by decide)
    exact List.forall_mem_map.mpr ih
  | object h hkeys ih =>
    rw [render, renderFields_eq]
    refine (Printable.append (by decide) (.intercalate ?_)).append (by decide)
    exact List.forall_mem_map.mpr fun f hf =>
      ((Printable.quote f.1).append (by decide)).append (ih f hf)

end TripleScript.Text.Json
