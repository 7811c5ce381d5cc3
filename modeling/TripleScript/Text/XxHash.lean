/-!
# A 64-bit checksum

Plans are told apart by a checksum of their explanation. The checksum is
XXH64 with seed zero: four lanes take thirty-two bytes at a time, the lanes
are merged, what is left of the bytes is mixed in, and the result is
scrambled so that every bit depends on every byte. Words are little-endian
and all arithmetic wraps at 64 bits.
-/

namespace TripleScript.Text.XxHash

/-- The first multiplier. -/
def prime1 : UInt64 := 11400714785074694791
/-- The second multiplier. -/
def prime2 : UInt64 := 14029467366897019727
/-- The third multiplier. -/
def prime3 : UInt64 := 1609587929392839161
/-- The fourth multiplier. -/
def prime4 : UInt64 := 9650029242287828579
/-- The fifth multiplier. -/
def prime5 : UInt64 := 2870177450012600261

/-- A word with its bits turned to the left. -/
def rotate (w : UInt64) (bits : UInt64) : UInt64 :=
  (w <<< bits) ||| (w >>> (64 - bits))

/-- The word of some bytes, the lowest byte first. -/
def word (bytes : List UInt8) : UInt64 :=
  bytes.foldr (fun b w => w <<< 8 ||| b.toUInt64) 0

/-- A lane after one more word. -/
def mix (lane input : UInt64) : UInt64 :=
  rotate (lane + input * prime2) 31 * prime1

/-- The four lanes. -/
structure Lanes where
  /-- The lane of the first eight bytes. -/
  a : UInt64
  /-- The lane of the next eight bytes. -/
  b : UInt64
  /-- The lane of the next eight bytes. -/
  c : UInt64
  /-- The lane of the last eight bytes. -/
  d : UInt64

/-- The lanes before any byte. -/
def Lanes.initial : Lanes :=
  ⟨prime1 + prime2, prime2, 0, 0 - prime1⟩

/-- The lanes after some stripes of thirty-two bytes, and the bytes left. -/
def Lanes.absorb : Nat → Lanes → List UInt8 → Lanes × List UInt8
  | 0, lanes, bytes => (lanes, bytes)
  | stripes + 1, lanes, bytes =>
    absorb stripes
      ⟨mix lanes.a (word (bytes.take 8)), mix lanes.b (word ((bytes.drop 8).take 8)),
        mix lanes.c (word ((bytes.drop 16).take 8)),
        mix lanes.d (word ((bytes.drop 24).take 8))⟩
      (bytes.drop 32)

/-- The hash with one lane merged into it. -/
def merge (h lane : UInt64) : UInt64 :=
  (h ^^^ mix 0 lane) * prime1 + prime4

/-- The lanes in one word. -/
def Lanes.join (l : Lanes) : UInt64 :=
  let h := rotate l.a 1 + rotate l.b 7 + rotate l.c 12 + rotate l.d 18
  merge (merge (merge (merge h l.a) l.b) l.c) l.d

/-- The hash with some words of eight bytes mixed in, and the bytes left. -/
def mixWords : Nat → UInt64 → List UInt8 → UInt64 × List UInt8
  | 0, h, bytes => (h, bytes)
  | words + 1, h, bytes =>
    let h := rotate (h ^^^ mix 0 (word (bytes.take 8))) 27 * prime1 + prime4
    mixWords words h (bytes.drop 8)

/-- The hash with half a word mixed in, if there are four bytes. -/
def mixHalf (h : UInt64) (bytes : List UInt8) : UInt64 × List UInt8 :=
  if bytes.length < 4 then (h, bytes)
  else
    (rotate (h ^^^ word (bytes.take 4) * prime1) 23 * prime2 + prime3, bytes.drop 4)

/-- The hash with one more byte mixed in. -/
def mixByte (h : UInt64) (b : UInt8) : UInt64 :=
  rotate (h ^^^ b.toUInt64 * prime5) 11 * prime1

/-- The hash with its bits scrambled. -/
def scramble (h : UInt64) : UInt64 :=
  let h := (h ^^^ h >>> 33) * prime2
  let h := (h ^^^ h >>> 29) * prime3
  h ^^^ h >>> 32

/-- **The checksum of some bytes.** -/
def hash (bytes : List UInt8) : UInt64 :=
  let (h, rest) :=
    if bytes.length < 32 then (prime5, bytes)
    else
      let (lanes, rest) := Lanes.initial.absorb (bytes.length / 32) bytes
      (lanes.join, rest)
  let h := h + UInt64.ofNat bytes.length
  let (h, rest) := mixWords (rest.length / 8) h rest
  let (h, rest) := mixHalf h rest
  scramble (rest.foldl mixByte h)

/-- A checksum in sixteen hexadecimal digits. -/
def hex (h : UInt64) : String :=
  let digits := Nat.toDigits 16 h.toNat
  String.ofList (List.replicate (16 - digits.length) '0' ++ digits)

end TripleScript.Text.XxHash
