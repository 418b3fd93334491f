import SortedSetClient.Decimal

/-! Floating-point numbers of 64 bits. The magnitudes from zero to infinity are ranked in order,
so a number is its sign and its rank; its bits are the sign above the rank. Rounding sends an exact
quotient to the nearest rank, and of two equally near to the even one. Powers are `Nat.pow` by name,
the same whatever instances are in scope. -/
namespace SortedSetClient

namespace Binary64

/-- The rank of the infinite magnitude. -/
def infinityRank : Nat := 2047 * Nat.pow 2 52

/-- The place of a magnitude in the order of all magnitudes. -/
abbrev Rank := Fin (infinityRank + 1)

end Binary64

/-- A number with its sign, so that zero has two, or no number at all. -/
inductive Binary64 where
  | nan
  | number (negative : Bool) (rank : Binary64.Rank)
deriving DecidableEq

namespace Binary64

def infinity (negative : Bool) : Binary64 := number negative (Fin.last _)

def isNaN : Binary64 → Bool
  | nan => true
  | number .. => false

def isInfinite : Binary64 → Bool
  | nan => false
  | number _ rank => rank.val == infinityRank

/-- Whether a number has a minus, which a zero may. -/
def isNegative : Binary64 → Bool
  | nan => false
  | number negative _ => negative

/-- A magnitude in units of the least positive one. Up to rank `2 ^ 53` the step is one unit, and
it doubles with every further `2 ^ 52` ranks. -/
def units (rank : Nat) : Nat :=
  if rank < Nat.pow 2 52 then rank
  else (Nat.pow 2 52 + rank % Nat.pow 2 52) * Nat.pow 2 (rank / Nat.pow 2 52 - 1)

/-- How many of the units make one. -/
def unitsPerOne : Nat := Nat.pow 2 1074

/-- A quotient as the nearest whole number, and of two equally near the even one. -/
def roundQuotient (n d : Nat) : Nat :=
  if 2 * (n % d) < d ∨ 2 * (n % d) = d ∧ n / d % 2 = 0 then n / d else n / d + 1

/-- The rank nearest to `n / d` units: the quotient keeps 53 binary digits and is rounded there. -/
def nearest (n d : Nat) : Rank :=
  let shift := (n / d).log2 - 52
  ⟨min (shift * Nat.pow 2 52 + roundQuotient n (d * Nat.pow 2 shift)) infinityRank,
    Nat.lt_succ_of_le (Nat.min_le_right _ _)⟩

/-- The rank nearest to `coefficient * 10 ^ exponent`. Far outside the range of the format the
answer is infinity or zero, and no large power is formed. -/
def nearestDecimal (coefficient : Nat) (exponent : Int) : Rank :=
  if coefficient = 0 then 0
  else if 310 < exponent then Fin.last _
  else if exponent + 330 + coefficient.log2 < 0 then 0
  else if 0 ≤ exponent then nearest (coefficient * Nat.pow 10 exponent.toNat * unitsPerOne) 1
  else nearest (coefficient * unitsPerOne) (Nat.pow 10 (-exponent).toNat)

/-- The nearest number to an integer. -/
def ofInt (i : Int) : Binary64 :=
  number (i < 0) (nearest (i.natAbs * unitsPerOne) 1)

/-- Where a number that is one stands among all numbers; both zeros stand at one place. -/
def place? : Binary64 → Option Int
  | nan => none
  | number negative rank => some (if negative then -(rank.val : Int) else rank.val)

/-- The order of two numbers; none with something that is no number. -/
def compare? (a b : Binary64) : Option Ordering := do
  return compare (← a.place?) (← b.place?)

/-- The number of a word of 64 bits. -/
def ofBits (bits : UInt64) : Binary64 :=
  let rank := bits.toNat % Nat.pow 2 63
  if h : rank < infinityRank + 1 then number (Nat.pow 2 63 ≤ bits.toNat) ⟨rank, h⟩ else nan

/-- The word of a number. -/
def toBits? : Binary64 → Option UInt64
  | nan => none
  | number negative rank => some (UInt64.ofNat ((if negative then Nat.pow 2 63 else 0) + rank.val))

end Binary64
end SortedSetClient
