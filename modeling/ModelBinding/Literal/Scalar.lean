import ModelBinding.Document.Record

/-!
# Scalars

A number as configuration documents give it. Infinities have their own form, because documents
spell them as words; an integer is unsigned only where it does not fit a signed one.
-/
namespace ModelBinding

inductive Scalar where
  | int (value : Int64)
  | uint (value : UInt64)
  | float (value : Binary64)
  | infinity (negative : Bool)
deriving DecidableEq

namespace Scalar

/-- Positional from 0.0001 up to sixteen digits before the point. -/
def numbers : NumberLayout where
  isPositional e := decide (-4 ≤ e ∧ e ≤ 15)
  pointZero := true
  plusSign := false
  tie := .upward

def ofInt64 (i : Int64) : Scalar := .int i

def ofUInt64 (n : UInt64) : Scalar :=
  if n.toNat < 0x8000000000000000 then .int n.toInt64 else .uint n

def ofBinary64 : Binary64 → Scalar
  | .infinite negative => .infinity negative
  | x => .float x

/-- The form that reading gives: integers signed where they fit, no infinity as a float. -/
def Canonical : Scalar → Prop
  | .int _ => True
  | .uint n => 0x8000000000000000 ≤ n.toNat
  | .float x => ∀ negative, x ≠ .infinite negative
  | .infinity _ => True

theorem canonical_ofUInt64 (n : UInt64) : (ofUInt64 n).Canonical := by
  unfold ofUInt64
  split
  · trivial
  · simp only [Canonical]; omega

theorem canonical_ofBinary64 (x : Binary64) : (ofBinary64 x).Canonical := by
  cases x <;> simp [ofBinary64, Canonical]

def isInteger : Scalar → Bool
  | .int _ | .uint _ => true
  | _ => false

def isNan : Scalar → Bool
  | .float x => x.isNan
  | _ => false

/-- The integer that the scalar is equal to, if it is one. -/
def toInt? : Scalar → Option Int
  | .int i => some i.toInt
  | .uint n => some n.toNat
  | .float x => x.toInt?
  | .infinity _ => none

/-- The text of a scalar in messages. -/
def text : Scalar → String
  | .int i => toString i.toInt
  | .uint n => toString n.toNat
  | .float x => x.text numbers
  | .infinity negative => if negative then "-inf" else "inf"

def toValue : Scalar → Value
  | .int i => .integer i
  | .uint n => .unsigned n
  | .float x => .float x
  | .infinity negative => .text (if negative then "-inf" else "inf")

def decode : Decoder Scalar
  | .integer i => .ok (.int i)
  | .unsigned n => .ok (.ofUInt64 n)
  | .float x => .ok (.ofBinary64 x)
  | .text "inf" => .ok (.infinity false)
  | .text "-inf" => .ok (.infinity true)
  | _ => .error (.here (.noAlternative "ScalarRepr"))

end Scalar

/-- A bound: one number for all elements, or one for each. -/
inductive Bound where
  | scalar (value : Scalar)
  | each (values : List Scalar)
deriving DecidableEq

namespace Bound

def isSequence : Bound → Bool
  | .scalar _ => false
  | .each _ => true

/-- How many numbers are given. -/
def length : Bound → Nat
  | .scalar _ => 1
  | .each values => values.length

def scalars : Bound → List Scalar
  | .scalar value => [value]
  | .each values => values

def toValue : Bound → Value
  | .scalar value => value.toValue
  | .each values => .sequence (values.map Scalar.toValue)

def decode : Decoder Bound := fun v =>
  match Scalar.decode v with
  | .ok value => .ok (.scalar value)
  | .error _ =>
    match Decoder.sequence Scalar.decode v with
    | .ok values => .ok (.each values)
    | .error _ => .error (.here (.noAlternative "NumericValue"))

end Bound

end ModelBinding
