import TripleScript.Text.Bytes

/-!
# Texts and their bytes

The bytes of a text are those of its parts one after the other
(`bytesOf_append`), so a report is the same bytes however it is cut into pieces,
and nothing of a text is lost in them (`ofBytes?_bytesOf`).
-/

namespace TripleScript.Text

/-- The loop that lists bytes lists those that are left behind those it has seen. -/
theorem toList_loop (bytes : ByteArray) (i : Nat) (seen : List UInt8) :
    ByteArray.toList.loop bytes i seen = seen.reverse ++ bytes.data.toList.drop i := by
  induction i, seen using ByteArray.toList.loop.induct bytes with
  | case1 i seen hlt ih =>
    have hi : i < bytes.data.toList.length := hlt
    have hget : bytes.get! i = bytes.data.toList[i] := getElem!_pos bytes.data i hlt
    rw [ByteArray.toList.loop, if_pos hlt, ih, List.drop_eq_getElem_cons hi, hget]
    simp
  | case2 i seen hge =>
    have hend : bytes.data.toList.length ≤ i := Nat.le_of_not_lt hge
    rw [ByteArray.toList.loop, if_neg hge, List.drop_eq_nil_of_le hend, List.append_nil]

/-- The bytes of a text are the ones that it is kept as. -/
theorem bytesOf_eq (s : String) : bytesOf s = s.toByteArray.data.toList :=
  (toList_loop s.toByteArray 0 []).trans (List.nil_append _)

/-- The empty text has no bytes. -/
@[simp] theorem bytesOf_empty : bytesOf "" = [] := bytesOf_eq ""

/-- **The bytes of a text are those of its parts.** -/
@[simp] theorem bytesOf_append (s t : String) : bytesOf (s ++ t) = bytesOf s ++ bytesOf t := by
  rw [bytesOf_eq, bytesOf_eq, bytesOf_eq, String.toByteArray_append, ByteArray.data_append,
    Array.toList_append]

/-- **A text is read back from its bytes.** -/
theorem ofBytes?_bytesOf (s : String) : ofBytes? (bytesOf s) = some s := by
  rw [ofBytes?, bytesOf_eq]
  exact dif_pos s.isValidUTF8

end TripleScript.Text
