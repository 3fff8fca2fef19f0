import ModelBinding.Number.Binary64

/-!
# Shortest decimals

The decimal with the fewest digits that rounds to a given binary64 magnitude, and of several the
one nearest to it. Whether a decimal will do is decided by rounding it, so what is found reads
back; the magnitude's own expansion, which is finite, stands behind the search.
-/
namespace ModelBinding

/-- The number `coefficient * 10 ^ exponent`. -/
structure Decimal where
  coefficient : Nat
  exponent : Int
deriving DecidableEq, Repr

/-- Which of two decimals with equally many digits and equally near is taken. -/
inductive TieRule where
  | toEven
  | upward
deriving DecidableEq, Repr

namespace Binary64

def digitCount (n : Nat) : Nat := (Nat.toDigits 10 n).length

/-- The exponent of the leading decimal digit of a positive magnitude. -/
def leadingExponent (rank : Nat) : Int :=
  if unitsPerOne ≤ units rank then digitCount (units rank / unitsPerOne) - 1
  else -(digitCount ((unitsPerOne - 1) / units rank) : Int)

/-- The magnitude as a fraction of `10 ^ exponent`: numerator and denominator. -/
def onGrid (rank : Nat) (exponent : Int) : Nat × Nat :=
  if 0 ≤ exponent then (units rank, unitsPerOne * Nat.pow 10 exponent.toNat)
  else (units rank * Nat.pow 10 (-exponent).toNat, unitsPerOne)

def readsAs (rank : Nat) (d : Decimal) : Bool :=
  ofDecimal false d.coefficient d.exponent = ofRank false rank

/-- The multiple of `10 ^ exponent` next to the magnitude that reads back, if there is one. -/
def neighbour? (tie : TieRule) (rank : Nat) (exponent : Int) : Option Decimal :=
  let (num, den) := onGrid rank exponent
  let low : Decimal := ⟨num / den, exponent⟩
  let high : Decimal := ⟨num / den + 1, exponent⟩
  match readsAs rank low, readsAs rank high with
  | false, false => none
  | true, false => some low
  | false, true => some high
  | true, true =>
    let middle := (2 * low.coefficient + 1) * den
    if 2 * num < middle then some low
    else if middle < 2 * num then some high
    else match tie with
      | .toEven => some (if low.coefficient % 2 = 0 then low else high)
      | .upward => some high

/-- The complete decimal expansion. -/
def expansion (rank : Nat) : Decimal :=
  ⟨units rank * Nat.pow 5 1074, -1074⟩

/-- The decimal of fewest digits that reads back; seventeen digits always suffice. -/
def shortest (tie : TieRule) (rank : Nat) : Decimal :=
  if rank = 0 then ⟨0, 0⟩
  else
    let leading := leadingExponent rank
    ((List.range 17).findSome? fun (n : Nat) => neighbour? tie rank (leading - n)).getD (expansion rank)

end Binary64

end ModelBinding
