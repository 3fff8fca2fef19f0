import ModelBinding.Number.Shortest

/-!
# Texts of numbers

How the digits of a decimal are laid out: positionally, or with an exponent part. A format fixes
its choices in one `NumberLayout`; the digits themselves are the shortest ones.
-/
namespace ModelBinding

structure NumberLayout where
  /-- Whether a number with this leading exponent is written without an exponent part. -/
  isPositional : Int → Bool
  /-- Whether an integral number in positional form ends in `.0`. -/
  pointZero : Bool
  /-- Whether a non-negative exponent is written with its sign. -/
  plusSign : Bool
  tie : TieRule
  nan : String := "NaN"
  infinity : String := "inf"

namespace NumberLayout

/-- Significant digits without trailing zeros, at least one. -/
def significant (coefficient : Nat) : List Char :=
  match ((Nat.toDigits 10 coefficient).reverse.dropWhile (· == '0')).reverse with
  | [] => ['0']
  | digits => digits

/-- Digits that begin at the decimal place `leading`, written positionally. -/
def positional (layout : NumberLayout) (digits : List Char) (leading : Int) : List Char :=
  if leading < 0 then
    '0' :: '.' :: List.replicate (-leading - 1).toNat '0' ++ digits
  else
    let whole := leading.toNat + 1
    if digits.length ≤ whole then
      digits ++ List.replicate (whole - digits.length) '0' ++
        (if layout.pointZero then ['.', '0'] else [])
    else
      digits.take whole ++ '.' :: digits.drop whole

def exponentPart (layout : NumberLayout) (exponent : Int) : List Char :=
  let sign := if exponent < 0 then ['-'] else if layout.plusSign then ['+'] else []
  'e' :: sign ++ Nat.toDigits 10 exponent.natAbs

def scientific (layout : NumberLayout) (digits : List Char) (leading : Int) : List Char :=
  match digits with
  | [] => []
  | [d] => d :: layout.exponentPart leading
  | d :: rest => d :: '.' :: rest ++ layout.exponentPart leading

/-- The text of a decimal. -/
def decimal (layout : NumberLayout) (d : Decimal) : List Char :=
  let digits := significant d.coefficient
  let leading :=
    if d.coefficient = 0 then 0 else d.exponent + (Nat.toDigits 10 d.coefficient).length - 1
  if layout.isPositional leading then layout.positional digits leading
  else layout.scientific digits leading

end NumberLayout

/-- The text of a number in the given layout. -/
def Binary64.text (layout : NumberLayout) : Binary64 → String
  | .nan => layout.nan
  | .infinite negative => if negative then "-" ++ layout.infinity else layout.infinity
  | .finite negative rank =>
    let magnitude := layout.decimal (shortest layout.tie rank)
    String.ofList (if negative then '-' :: magnitude else magnitude)

end ModelBinding
