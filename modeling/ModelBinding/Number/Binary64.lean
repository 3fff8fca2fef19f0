/-!
# Binary64 numbers

The finite magnitudes of the 64-bit binary floating point format, numbered in increasing order,
with their exact values as multiples of the least positive one, 2^-1074. Rounding is to the
nearest magnitude, a tie going to the even rank. No arithmetic of the machine is involved, so
every statement about a number is one about natural numbers.
-/
namespace ModelBinding

/-- How many magnitudes follow each other at one distance: 2^52. -/
def Binary64.blockSize : Nat := 0x10000000000000

/-- How many finite magnitudes there are: 2047 blocks. -/
def Binary64.finiteCount : Nat := 2047 * blockSize

/-- A floating point number. A finite one is its sign and the rank of its magnitude. -/
inductive Binary64 where
  | nan
  | infinite (negative : Bool)
  | finite (negative : Bool) (rank : Fin Binary64.finiteCount)
deriving DecidableEq, Repr

namespace Binary64

/-- Units in one: every finite magnitude is a whole number of units of 2^-1074. -/
def unitsPerOne : Nat := 1 <<< 1074

/-- The magnitude of a rank, in units. -/
def units (rank : Nat) : Nat :=
  if rank < blockSize then rank else (blockSize + rank % blockSize) <<< (rank / blockSize - 1)

/-- The greatest rank whose magnitude is at most `u` units. -/
def floorRank (u : Nat) : Nat :=
  (u.log2 - 52) * blockSize + u >>> (u.log2 - 52)

/-- The rank nearest to `num / den`, of two equally near ones the even. -/
def nearestRank (num den : Nat) : Nat :=
  let low := floorRank (num * unitsPerOne / den)
  let twice := 2 * num * unitsPerOne
  let middle := (units low + units (low + 1)) * den
  if twice < middle then low
  else if middle < twice then low + 1
  else if low % 2 = 0 then low else low + 1

def ofRank (negative : Bool) (rank : Nat) : Binary64 :=
  if h : rank < finiteCount then .finite negative ⟨rank, h⟩ else .infinite negative

def zero (negative : Bool) : Binary64 := .ofRank negative 0

/-- The number nearest to the fraction, infinite beyond the finite range. -/
def ofRatio (negative : Bool) (num den : Nat) : Binary64 :=
  .ofRank negative (nearestRank num den)

def ofInt (i : Int) : Binary64 :=
  .ofRatio (decide (i < 0)) i.natAbs 1

/--
The number nearest to `coefficient * 10 ^ exponent`. Powers of ten that decide the answer alone
are not computed.
-/
def ofDecimal (negative : Bool) (coefficient : Nat) (exponent : Int) : Binary64 :=
  if coefficient = 0 then .zero negative
  else if 309 < exponent then .infinite negative
  else if exponent + coefficient.log2 + 1 < -324 then .zero negative
  else if 0 ≤ exponent then .ofRatio negative (coefficient * Nat.pow 10 exponent.toNat) 1
  else .ofRatio negative coefficient (Nat.pow 10 (-exponent).toNat)

def isNan : Binary64 → Bool
  | .nan => true
  | _ => false

/-- The integer that a finite number is equal to, if it is one. -/
def toInt? : Binary64 → Option Int
  | .finite negative rank =>
    if units rank % unitsPerOne = 0 then
      let magnitude : Int := units rank / unitsPerOne
      some (if negative then -magnitude else magnitude)
    else none
  | _ => none

end Binary64

end ModelBinding
