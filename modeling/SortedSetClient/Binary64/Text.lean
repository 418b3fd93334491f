import SortedSetClient.Binary64

/-! The text of a number. It is written with the fewest digits that read back to it, every digit
in its place and never an exponent. It is read with an optional sign, digits around an optional
point and an optional exponent, or as a name for infinity or for no number. -/
namespace SortedSetClient.Binary64

/-! ### Reading -/

def lower (b : UInt8) : UInt8 :=
  if 0x41 ≤ b && b ≤ 0x5a then b + 0x20 else b

/-- The size of an exponent. It is read until it reaches 65536; further digits are passed over. -/
def exponentSize (digits : Bytes) : Nat :=
  digits.foldl (fun size d => if size < 65536 then 10 * size + (d.toNat - 0x30) else size) 0

/-- The exponent after its mark; zero where there is none. -/
def readExponent? : Bytes → Option Int
  | [] => some 0
  | mark :: text =>
    let (negative, digits) := Decimal.splitSign text
    if lower mark = 0x65 && !digits.isEmpty && digits.all Decimal.isDigit then
      some (if negative then -(exponentSize digits : Int) else exponentSize digits)
    else none

/-- Split off a point and the digits after it. -/
def splitFraction : Bytes → Bytes × Bytes
  | 0x2e :: text => text.span Decimal.isDigit
  | text => ([], text)

/-- Read a magnitude written in digits. -/
def readDigits? (text : Bytes) : Option Rank :=
  let (whole, rest) := text.span Decimal.isDigit
  let (fraction, rest) := splitFraction rest
  if whole.isEmpty && fraction.isEmpty then none
  else (readExponent? rest).map fun exponent =>
    nearestDecimal (Decimal.value (whole ++ fraction)) (exponent - fraction.length)

/-- Read the text of a number. Names are read in any case. -/
def read? (text : Bytes) : Option Binary64 :=
  let (negative, magnitude) := Decimal.splitSign text
  let name := magnitude.map lower
  if name = Utf8.encode "inf" || name = Utf8.encode "infinity" then some (infinity negative)
  else if name = Utf8.encode "nan" then some nan
  else (readDigits? magnitude).map (number negative)

/-! ### Writing -/

/-- A magnitude in whole steps of `10 ^ exponent`, as a quotient. -/
def onGrid (rank : Nat) (exponent : Int) : Nat × Nat :=
  if 0 ≤ exponent then (units rank, unitsPerOne * Nat.pow 10 exponent.toNat)
  else (units rank * Nat.pow 10 (-exponent).toNat, unitsPerOne)

/-- The multiple of `10 ^ exponent` that reads back to a magnitude, if one does. Of the two around
the magnitude the nearer is taken, and the upper one halfway between them. -/
def gridPoint? (rank : Rank) (exponent : Int) : Option Nat :=
  let (n, d) := onGrid rank.val exponent
  let below := n / d
  let above := below + 1
  let candidates := if 2 * (n % d) < d then [below, above] else [above, below]
  candidates.find? fun coefficient => nearestDecimal coefficient exponent == rank

/-- An exponent at which every finite magnitude is whole: each unit is `5 ^ 1074` of its steps. -/
def exact (rank : Nat) : Nat × Int :=
  (units rank * Nat.pow 5 1074, -1074)

/-- A power of ten above a magnitude, close by. -/
def coarsest (rank : Nat) : Int :=
  (((units rank).log2 : Int) - 1074) * 30103 / 100000 + 2

/-- The coefficient and the exponent of the coarsest decimal step that reads back. -/
def shortest (rank : Rank) : Nat × Int :=
  let steps := (List.range 24).map fun (finer : Nat) => coarsest rank.val - finer
  (steps.findSome? fun exponent => (gridPoint? rank exponent).map (·, exponent)).getD
    (exact rank.val)

/-- Write `coefficient * 10 ^ exponent` with every digit in its place. -/
def writePositional (coefficient : Nat) (exponent : Int) : Bytes :=
  let digits := Decimal.digits coefficient
  if 0 ≤ exponent then digits ++ List.replicate exponent.toNat 0x30
  else
    let places := (-exponent).toNat
    let padded := List.replicate (places + 1 - digits.length) 0x30 ++ digits
    padded.take (padded.length - places) ++ 0x2e :: padded.drop (padded.length - places)

/-- Write the magnitude of a number. -/
def writeMagnitude (rank : Rank) : Bytes :=
  if rank.val = 0 then [0x30]
  else if rank.val = infinityRank then Utf8.encode "inf"
  else writePositional (shortest rank).1 (shortest rank).2

/-- Write a number. Zero keeps its sign. -/
def write : Binary64 → Bytes
  | nan => Utf8.encode "NaN"
  | number true rank => 0x2d :: writeMagnitude rank
  | number false rank => writeMagnitude rank

end SortedSetClient.Binary64
