/-!
# Nodes

A node is a text. It stands for a subject, a predicate or an object, and any
text will do, the empty one included. Statements and seed files write a node
bare when its text consists of bare characters, and between quotes otherwise;
between quotes, a quote and a backslash take a backslash in front of them and
every other character stands for itself, line feeds included.

`Node.written` is that form. `mem_escaped` says that escaping adds nothing
but backslashes.
-/

namespace TripleScript

/-- The characters a text may have that is written without quotes: ASCII
letters and digits, and seven signs. -/
def isBare (c : Char) : Bool :=
  c.isAlphanum || ['_', '-', '.', ':', '/', '#', '@'].contains c

/-- The text of a subject, a predicate or an object. -/
structure Node where
  /-- The text itself, without quotes. -/
  text : String
deriving DecidableEq, Inhabited, Repr

namespace Node

/-- Whether a text has to be escaped character by character: the quote, which
would end it, and the backslash, which would escape what follows. -/
def needsEscape (c : Char) : Bool :=
  c == '"' || c == '\\'

/-- A text with a backslash in front of each quote and each backslash. -/
def escaped (cs : List Char) : List Char :=
  cs.flatMap fun c => if needsEscape c then ['\\', c] else [c]

/-- Whether a node is written without quotes: it has a character, and only
bare ones. -/
def isBareText (n : Node) : Bool :=
  !n.text.toList.isEmpty && n.text.toList.all isBare

/-- The node as statements and seed files write it. -/
def written (n : Node) : String :=
  if n.isBareText then n.text
  else String.ofList ('"' :: escaped n.text.toList ++ ['"'])

instance : ToString Node := ⟨written⟩

/-- The empty text escapes to itself. -/
@[simp] theorem escaped_nil : escaped [] = [] := rfl

/-- Escaping goes character by character. -/
@[simp] theorem escaped_cons (c : Char) (cs : List Char) :
    escaped (c :: cs)
      = (if needsEscape c then ['\\', c] else [c]) ++ escaped cs := rfl

/-- **Escaping adds backslashes only**: every other character of the escaped
text was there before. -/
theorem mem_escaped {c : Char} {cs : List Char} (h : c ∈ escaped cs) :
    c = '\\' ∨ c ∈ cs := by
  obtain ⟨d, hd, hc⟩ := List.mem_flatMap.1 h
  split at hc
  · rcases List.mem_cons.1 hc with rfl | hc
    · exact .inl rfl
    · exact .inr (List.mem_singleton.1 hc ▸ hd)
  · exact .inr (List.mem_singleton.1 hc ▸ hd)

end Node

end TripleScript
