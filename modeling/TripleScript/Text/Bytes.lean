/-!
# Bytes of a text

Positions in a statement and the room of a report are counted in bytes of
UTF-8. `byteLength` counts them for a list of characters, and
`byteLength_append` says that it adds up. `slice?` is the part of a text
between two places that are counted in this way.

A report that ran out of room may end within a character. `decodeCut` reads
such bytes back: what is left of the last character becomes one replacement
character.
-/

namespace TripleScript.Text

/-- How many bytes a row of characters takes. -/
def byteLength (cs : List Char) : Nat :=
  cs.foldl (fun n c => n + c.utf8Size) 0

/-- Nothing takes no bytes. -/
@[simp] theorem byteLength_nil : byteLength [] = 0 := rfl

/-- The bytes of a row add up, wherever the count begins. -/
theorem foldl_byteLength (n : Nat) (cs : List Char) :
    cs.foldl (fun n c => n + c.utf8Size) n = n + byteLength cs := by
  induction cs generalizing n with
  | nil => rfl
  | cons c cs ih =>
    rw [byteLength, List.foldl_cons, List.foldl_cons, ih, ih (0 + c.utf8Size)]
    omega

/-- One more character takes its own bytes. -/
@[simp] theorem byteLength_cons (c : Char) (cs : List Char) :
    byteLength (c :: cs) = c.utf8Size + byteLength cs := by
  rw [byteLength, List.foldl_cons, foldl_byteLength, Nat.zero_add]

/-- **Bytes add up.** -/
@[simp] theorem byteLength_append (cs ds : List Char) :
    byteLength (cs ++ ds) = byteLength cs + byteLength ds := by
  induction cs with
  | nil => simp
  | cons c cs ih => simp [ih, Nat.add_assoc]

/-- A text without its first bytes, unless they end within a character. -/
def dropBytes? : Nat → List Char → Option (List Char)
  | 0, cs => some cs
  | _, [] => none
  | count, c :: cs => if c.utf8Size ≤ count then dropBytes? (count - c.utf8Size) cs else none

/-- The first bytes of a text, unless they end within a character. -/
def takeBytes? : Nat → List Char → Option (List Char)
  | 0, _ => some []
  | _, [] => none
  | count, c :: cs =>
    if c.utf8Size ≤ count then (takeBytes? (count - c.utf8Size) cs).map (c :: ·) else none

/-- The part of a text between two places, both counted in bytes. -/
def slice? (first stop : Nat) (cs : List Char) : Option (List Char) :=
  (dropBytes? first cs).bind (takeBytes? (stop - first))

/-- **Dropping the bytes of a text** leaves what follows it. -/
theorem dropBytes?_byteLength (cs ds : List Char) :
    dropBytes? (byteLength cs) (cs ++ ds) = some ds := by
  induction cs with
  | nil => simp [dropBytes?]
  | cons c cs ih =>
    have : 0 < c.utf8Size := c.utf8Size_pos
    rw [byteLength_cons, List.cons_append]
    rw [dropBytes?.eq_3 _ _ _ (by omega), if_pos (by omega)]
    rw [Nat.add_sub_cancel_left, ih]

/-- **Taking the bytes of a text** leaves out what follows it. -/
theorem takeBytes?_byteLength (cs ds : List Char) :
    takeBytes? (byteLength cs) (cs ++ ds) = some cs := by
  induction cs with
  | nil => simp [takeBytes?]
  | cons c cs ih =>
    have : 0 < c.utf8Size := c.utf8Size_pos
    rw [byteLength_cons, List.cons_append]
    rw [takeBytes?.eq_3 _ _ _ (by omega), if_pos (by omega)]
    rw [Nat.add_sub_cancel_left, ih, Option.map_some]

/-- **The part between two places** is what stands there. -/
theorem slice?_byteLength (front cs back : List Char) :
    slice? (byteLength front) (byteLength front + byteLength cs) (front ++ (cs ++ back))
      = some cs := by
  rw [slice?, dropBytes?_byteLength, Option.bind_some, Nat.add_sub_cancel_left,
    takeBytes?_byteLength]

/-- The bytes of a text. -/
def bytesOf (s : String) : List UInt8 :=
  s.toUTF8.toList

/-- The text that some bytes stand for, if they are UTF-8. -/
def ofBytes? (bytes : List UInt8) : Option String :=
  String.fromUTF8? ⟨bytes.toArray⟩

/-- The text of the longest part of the bytes that is whole, looking for its
end at most `tries` bytes from the back, and a replacement character for the
rest. -/
def decodeCutWithin (bytes : List UInt8) : Nat → Nat → String
  | 0, _ => ""
  | tries + 1, dropped =>
    match ofBytes? (bytes.take (bytes.length - dropped)) with
    | some s => if dropped = 0 then s else s.push '\uFFFD'
    | none => decodeCutWithin bytes tries (dropped + 1)

/-- The text of some bytes that were cut off from a text, perhaps within its
last character. A character has at most four bytes, so at most three of them
are left. -/
def decodeCut (bytes : List UInt8) : String :=
  decodeCutWithin bytes 4 0

end TripleScript.Text
