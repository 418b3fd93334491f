import SortedSetClient.Utf8

/-! Whole numbers in decimal: an optional sign and one or more digits, nothing around them.
A number of the data model must fit 64 bits; a text whose number does not fit is no number. -/
namespace SortedSetClient.Decimal

def isDigit (b : UInt8) : Bool := 0x30 ≤ b && b ≤ 0x39

/-- The number that digits denote. -/
def value (digits : Bytes) : Nat :=
  digits.foldl (fun n d => 10 * n + (d.toNat - 0x30)) 0

/-- The digits of a number, without leading zeros. -/
def digits (n : Nat) : Bytes :=
  if n < 10 then [UInt8.ofNat (0x30 + n)]
  else digits (n / 10) ++ [UInt8.ofNat (0x30 + n % 10)]

/-- Read one or more digits. -/
def natural? (text : Bytes) : Option Nat :=
  if !text.isEmpty && text.all isDigit then some (value text) else none

/-- Split off at most one sign; true for a minus. -/
def splitSign : Bytes → Bool × Bytes
  | 0x2d :: rest => (true, rest)
  | 0x2b :: rest => (false, rest)
  | text => (false, text)

/-- Read an optional sign and one or more digits. -/
def integer? (text : Bytes) : Option Int :=
  let (negative, magnitude) := splitSign text
  (natural? magnitude).map fun n => if negative then -(n : Int) else n

/-- Write a number with a sign only where it is negative. -/
def ofInt (i : Int) : Bytes :=
  if i < 0 then 0x2d :: digits i.natAbs else digits i.natAbs

/-- The signed word of a number that fits. -/
def toInt64? (i : Int) : Option Int64 :=
  if Int64.minValue.toInt ≤ i ∧ i ≤ Int64.maxValue.toInt then some (Int64.ofInt i) else none

/-- The unsigned word of a number that fits. -/
def toUInt64? (n : Nat) : Option UInt64 :=
  if n < UInt64.size then some (UInt64.ofNat n) else none

/-- Read a signed integer of 64 bits. -/
def int64? (text : Bytes) : Option Int64 :=
  (integer? text).bind toInt64?

/-- Read an unsigned integer of 64 bits, written with digits only. -/
def uint64? (text : Bytes) : Option UInt64 :=
  (natural? text).bind toUInt64?

/-- Write a signed integer. -/
def ofInt64 (i : Int64) : Bytes := ofInt i.toInt

/-- Write an unsigned integer. -/
def ofUInt64 (n : UInt64) : Bytes := digits n.toNat

end SortedSetClient.Decimal
