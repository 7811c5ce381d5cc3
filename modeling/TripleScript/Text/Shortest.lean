/-!
# Shortest decimals

A number in binary floating point is written with the fewest decimal digits
that read back as the same number, and with the nearest such digits if there
are several; of two that are equally near, with the even ones.
`Shortest.ofScaled` finds them for the number `m · 2 ^ q` in exact
arithmetic: it tries one digit, two digits, and so on, and asks each time
whether one of the two decimals around the number lies in the interval of
numbers that read back as it.
-/

namespace TripleScript.Text

/-- A decimal `0.d₁d₂… · 10 ^ point` with the digits `d₁d₂…`, the first of
them not zero. -/
structure Decimal where
  /-- The digits. -/
  digits : List Char
  /-- How many of the digits stand before the decimal point, counted beyond
  the digits if there are not enough and below zero if there are zeros
  behind the point. -/
  point : Int
deriving DecidableEq, Inhabited, Repr

namespace Shortest

/-- A power of two. -/
def twoTo (n : Nat) : Nat := Nat.pow 2 n

/-- A power of ten. -/
def tenTo (n : Nat) : Nat := Nat.pow 10 n

/-- The numbers that read back as one number, over a common denominator. -/
structure Interval where
  /-- The number itself. -/
  value : Nat
  /-- The least number that may read back as it. -/
  low : Nat
  /-- The greatest number that may read back as it. -/
  high : Nat
  /-- The denominator of all three. -/
  denominator : Nat
  /-- Whether the two ends read back as the number too. -/
  closed : Bool
deriving DecidableEq, Inhabited, Repr

/-- The interval of `m · 2 ^ q`. It reaches half way to the neighbours, and
below a power of two the neighbour is at half the distance. -/
def Interval.ofScaled (m : Nat) (q : Int) (narrow : Bool) : Interval :=
  let up := twoTo (q - 2).toNat
  { value := 4 * m * up
    low := (4 * m - if narrow then 1 else 2) * up
    high := (4 * m + 2) * up
    denominator := twoTo (2 - q).toNat
    closed := m % 2 = 0 }

/-- Whether `c · 10 ^ s` is in an interval. -/
def Interval.contains (i : Interval) (c : Nat) (s : Int) : Bool :=
  let candidate := c * tenTo s.toNat * i.denominator
  let low := i.low * tenTo (-s).toNat
  let high := i.high * tenTo (-s).toNat
  if i.closed then low ≤ candidate && candidate ≤ high
  else low < candidate && candidate < high

/-- Whether `c · 10 ^ s` is nearer to the number than the next multiple of
`10 ^ s`, or as near and even. -/
def Interval.prefersLower (i : Interval) (c : Nat) (s : Int) : Bool :=
  let value := i.value * tenTo (-s).toNat
  let unit := tenTo s.toNat * i.denominator
  2 * value < (2 * c + 1) * unit || (2 * value == (2 * c + 1) * unit && c % 2 == 0)

/-- How often one can multiply a fraction below one by ten until it is at
least one. -/
def leadingZeros (value denominator : Nat) : Nat → Nat
  | 0 => 0
  | fuel + 1 =>
    if denominator ≤ value then 0
    else leadingZeros (10 * value) denominator fuel + 1

/-- How many digits the number has before the decimal point; zero or less if
it is below one. -/
def Interval.magnitude (i : Interval) : Int :=
  if i.denominator ≤ i.value then (Nat.toDigits 10 (i.value / i.denominator)).length
  else 1 - (leadingZeros i.value i.denominator 400 : Int)

/-- The decimal `c · 10 ^ s`. -/
def decimal (c : Nat) (s : Int) : Decimal :=
  let digits := Nat.toDigits 10 c
  ⟨((digits.reverse.dropWhile (· = '0')).reverse), digits.length + s⟩

/-- The shortest decimal with at least `count` digits, trying `tries` times. -/
def Interval.search (i : Interval) (count : Nat) : Nat → Decimal
  | 0 => decimal i.value 0
  | tries + 1 =>
    let s := i.magnitude - count
    let c := i.value * tenTo (-s).toNat / (i.denominator * tenTo s.toNat)
    match i.contains c s, i.contains (c + 1) s with
    | true, true => decimal (if i.prefersLower c s then c else c + 1) s
    | true, false => decimal c s
    | false, true => decimal (c + 1) s
    | false, false => i.search (count + 1) tries

/-- **The shortest decimal that reads back as `m · 2 ^ q`.** Seventeen digits
are always enough for a number with 53 bits. -/
def ofScaled (m : Nat) (q : Int) (narrow : Bool) : Decimal :=
  (Interval.ofScaled m q narrow).search 1 17

/-- Whether a double is zero, with either sign: no other bit of it is set. -/
def isZero (x : Float) : Bool :=
  x.toBits.toNat % twoTo 63 = 0

/-- The shortest decimal of a double that is finite and above zero. -/
def ofFloat (x : Float) : Decimal :=
  let bits := x.toBits.toNat
  let exponent : Nat := bits / twoTo 52 % twoTo 11
  let fraction : Nat := bits % twoTo 52
  if exponent = 0 then ofScaled fraction (-1074) false
  else ofScaled (twoTo 52 + fraction) ((exponent : Int) - 1075) (fraction = 0 && exponent > 1)

end Shortest

/-- The decimal in positional notation, with a zero where the point would
have nothing before or behind it. -/
def Decimal.positional (d : Decimal) : String :=
  let count := d.digits.length
  if d.point ≤ 0 then
    "0." ++ String.ofList (List.replicate (-d.point).toNat '0' ++ d.digits)
  else if d.point.toNat < count then
    String.ofList (d.digits.take d.point.toNat) ++ "."
      ++ String.ofList (d.digits.drop d.point.toNat)
  else String.ofList (d.digits ++ List.replicate (d.point.toNat - count) '0') ++ ".0"

/-- The decimal with one digit before the point and an exponent, which has a
sign in any case. -/
def Decimal.scientific (d : Decimal) : String :=
  let mantissa := match d.digits with
    | [] => []
    | [c] => [c]
    | c :: cs => c :: '.' :: cs
  let sign := if 0 < d.point then "+" else ""
  String.ofList mantissa ++ "e" ++ sign ++ toString (d.point - 1)

/-- **A double as reports write it**: in positional notation from `0.00001`
up to sixteen digits before the point, and with an exponent otherwise. -/
def floatText (x : Float) : String :=
  if Shortest.isZero x then "0.0"
  else
    let d := Shortest.ofFloat x
    if -5 < d.point ∧ d.point ≤ 16 then d.positional else d.scientific

end TripleScript.Text
