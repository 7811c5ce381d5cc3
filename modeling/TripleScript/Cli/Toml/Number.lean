import TripleScript.Text.Hex
import TripleScript.Text.Numeral
import TripleScript.Text.Shortest

/-!
# TOML numbers

An integer is written in base ten, or in base sixteen, eight or two behind
`0x`, `0o` or `0b`, and fits into 64 bits. A float is written in base ten with
a fraction, an exponent or both. Underscores may stand between digits, and a
number in base ten has no zero in front of its other digits.

A configuration has no use for floats, so all that matters is which texts are
one: `isFloat`. A float too large for a double is none, unless it has a minus
sign.
-/

namespace TripleScript.Cli.Toml

/-! ## Integers -/

/-- The digits of a number without the underscores between them. -/
def plainDigits? (isDigit : Char → Bool) : List Char → Option (List Char)
  | [] => none
  | [c] => if isDigit c then some [c] else none
  | c :: '_' :: cs => if isDigit c then (plainDigits? isDigit cs).map (c :: ·) else none
  | c :: cs => if isDigit c then (plainDigits? isDigit cs).map (c :: ·) else none

/-- A number in a base, from its digits. -/
def inBase? (base : Nat) (cs : List Char) : Option Nat := do
  let isDigit (c : Char) : Bool := (Text.hexValue? c).any (· < base)
  let values ← (← plainDigits? isDigit cs).mapM Text.hexValue?
  return values.foldl (fun n d => base * n + d) 0

/-- A number in base ten, which has no zero in front. -/
def decimal? (cs : List Char) : Option Nat :=
  match cs with
  | '0' :: _ :: _ => none
  | cs => inBase? 10 cs

/-- An integer, from all of its characters. -/
def integer? (cs : List Char) : Option Int := do
  let i : Int ← match cs with
    | '0' :: 'x' :: cs => (inBase? 16 cs).map Int.ofNat
    | '0' :: 'o' :: cs => (inBase? 8 cs).map Int.ofNat
    | '0' :: 'b' :: cs => (inBase? 2 cs).map Int.ofNat
    | '+' :: cs => (decimal? cs).map Int.ofNat
    | '-' :: cs => (decimal? cs).map fun n => -Int.ofNat n
    | cs => (decimal? cs).map Int.ofNat
  if -9223372036854775808 ≤ i ∧ i ≤ 9223372036854775807 then some i else none

/-! ## Floats -/

/-- The number in an exponent, which may have a sign. -/
def exponent? : List Char → Option Int
  | '+' :: cs => (plainDigits? Char.isDigit cs).map fun ds => Text.valueOfDigits 0 ds
  | '-' :: cs => (plainDigits? Char.isDigit cs).map fun ds => -Text.valueOfDigits 0 ds
  | cs => (plainDigits? Char.isDigit cs).map fun ds => Text.valueOfDigits 0 ds

/-- The digits and the power of ten of a float without a sign. -/
def scientific? (cs : List Char) : Option (List Char × Int) := do
  let mantissa := cs.takeWhile fun c => c != 'e' && c != 'E'
  let whole := mantissa.takeWhile (· != '.')
  if whole.length = cs.length || (decimal? whole).isNone then none
  else
    let digits ← plainDigits? Char.isDigit whole
    let fraction ← match mantissa.drop whole.length with
      | [] => some []
      | _ :: ds => plainDigits? Char.isDigit ds
    let power ← match cs.drop mantissa.length with
      | [] => some 0
      | _ :: ds => exponent? ds
    return (digits ++ fraction, power - fraction.length)

/-- The least number that counts as infinite among doubles: it lies halfway
between the greatest of them and the next power of two. -/
def infinityFrom : Nat :=
  Text.Shortest.twoTo 1024 - Text.Shortest.twoTo 970

/-- Whether digits times a power of ten are too large for a double. -/
def isInfinite (digits : List Char) (power : Int) : Bool :=
  let digits := digits.dropWhile (· == '0')
  let magnitude : Int := digits.length + power
  !digits.isEmpty && 308 < magnitude
    && (309 < magnitude || infinityFrom * Text.Shortest.tenTo (-power).toNat
      ≤ Text.valueOfDigits 0 digits * Text.Shortest.tenTo power.toNat)

/-- Whether a text without a sign is a float, and finite if it has to be. -/
def isUnsignedFloat (finite : Bool) (cs : List Char) : Bool :=
  cs == "inf".toList || cs == "nan".toList
    || (scientific? cs).any fun (digits, power) => !(finite && isInfinite digits power)

/-- **Whether a text is a float.** -/
def isFloat : List Char → Bool
  | '-' :: cs => isUnsignedFloat false cs
  | '+' :: cs => isUnsignedFloat true cs
  | cs => isUnsignedFloat true cs

end TripleScript.Cli.Toml
