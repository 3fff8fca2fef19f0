import ModelBinding.Number.Numeral

/-!
# Reading numerals in floating point

The digits of a numeral are gathered in an integer of 64 bits, which is then scaled by a power of ten
among the floating point numbers. The factors and the result are each rounded, so a numeral with many
digits may be taken for a neighbour of the number that is nearest to it.
-/
namespace ModelBinding

namespace Binary64

/-- The rank nearest to the product of two magnitudes. -/
def mulRank (rank other : Nat) : Nat :=
  nearestRank (units rank * units other) (unitsPerOne * unitsPerOne)

/-- The rank nearest to the quotient of two magnitudes. -/
def divRank (rank other : Nat) : Nat := nearestRank (units rank) (units other)

/-- The rank nearest to a power of ten. -/
def tenRank (exponent : Nat) : Nat := nearestRank (Nat.pow 10 exponent) 1

/-- The greatest power of ten that is one factor. -/
def maxPower : Nat := 308

/-- A magnitude after so many divisions by the greatest power; nothing is left of zero. -/
def shrink : (count rank : Nat) → Nat
  | 0, rank => rank
  | count + 1, rank => if rank = 0 then 0 else shrink count (divRank rank (tenRank maxPower))

/-- A magnitude times a power of ten; what is beyond the greatest power is beyond the range. -/
def scale (rank : Nat) (exponent : Int) : Nat :=
  if maxPower < exponent then if rank = 0 then 0 else finiteCount
  else if 0 ≤ exponent then mulRank rank (tenRank exponent.toNat)
  else
    let power := (-exponent).toNat
    let count := (power - 1) / maxPower
    divRank (shrink count rank) (tenRank (power - count * maxPower))

end Binary64

namespace Numeral

/-- Digits appended to an integer for as long as it fits in 64 bits, and the digits that are left. -/
def gather (n : Nat) : List Char → Nat × List Char
  | [] => (n, [])
  | c :: rest =>
    let more := 10 * n + (c.toNat - '0'.toNat)
    if more < 0x10000000000000000 then gather more rest else (n, c :: rest)

/--
The integer that the digits give and its power of ten. Of digits that do not fit, those before the
point count in the power alone and those behind it not at all.
-/
def significand (n : Numeral) : Nat × Int :=
  let (whole, uncounted) := gather 0 n.whole
  let (all, ignored) := gather whole n.fraction
  (all, n.exponent + uncounted.length - (n.fraction.length - ignored.length))

/-- The rank that floating point arithmetic makes of a numeral. -/
def bestRank (n : Numeral) : Nat :=
  let (coefficient, exponent) := n.significand
  Binary64.scale (Binary64.nearestRank coefficient 1) exponent

def bestEffort (n : Numeral) : Binary64 := .ofRank n.negative n.bestRank

end Numeral

/-- How the number of a numeral is found. -/
inductive Rounding where
  | nearest
  | bestEffort
deriving DecidableEq, Repr

namespace Numeral

def rounded : Rounding → Numeral → Binary64
  | .nearest => toBinary64
  | .bestEffort => bestEffort

end Numeral

end ModelBinding
