import ModelBinding.Field.Basic
import ModelBinding.Literal.Scalar

/-!
# Parameter initializers

How an instance parameter gets its value when an environment is reset. Code is passed on as it
is; everything else has to fit the field.
-/
namespace ModelBinding

inductive Initializer where
  /-- A fresh random seed. -/
  | seed
  | constant (value : Scalar)
  /-- Uniformly between bounds, for all elements or for each. -/
  | uniform (low high : Bound)
  | custom (code : String)
deriving DecidableEq

namespace Initializer

def kind : Initializer → String
  | .seed => "seed"
  | .constant _ => "constant"
  | .uniform .. => "uniform"
  | .custom _ => "custom"

def isCustom : Initializer → Bool
  | .custom _ => true
  | _ => false

/-- The kinds in use, each once, in increasing order. -/
def kinds (initializers : List Initializer) : List String :=
  sortDistinct (initializers.map kind)

/-- The scalars that an initializer holds. -/
def scalars : Initializer → List Scalar
  | .seed | .custom _ => []
  | .constant value => [value]
  | .uniform low high => low.scalars ++ high.scalars

/-- A bound for an array is one number or as many as its elements are counted. -/
def checkLength (field : Field) (side : Side) (bound : Bound) : Except Error Unit :=
  if bound.length = 1 ∨ bound.length = field.count.toNat then .ok ()
  else .error (.initializer field.name (.boundLength side bound.length field.count.toNat))

/-- Whether the initializer can be applied to a field. -/
def check (init : Initializer) (field : Field) : Except Error Unit :=
  if init.isCustom then .ok ()
  else if field.mode.isStruct then .error (.initializer field.name .structNeedsCode)
  else
    match init with
    | .uniform low high =>
      if field.mode = .plainArray then do
        checkLength field .low low
        checkLength field .high high
      else if low.isSequence || high.isSequence then
        .error (.initializer field.name .boundNotScalar)
      else .ok ()
    | _ => .ok ()

def toValue : Initializer → Value
  | .seed => .ofEntries [("type", .text "seed")]
  | .constant value => .ofEntries [("type", .text "constant"), ("value", value.toValue)]
  | .uniform low high =>
    .ofEntries [("type", .text "uniform"), ("low", low.toValue), ("high", high.toValue)]
  | .custom code => .ofEntries [("type", .text "custom"), ("code", .text code)]

def decode : Decoder Initializer :=
  .tagged [
    ("seed", .record (pure .seed)),
    ("constant", .record (.constant <$> .required "value" Scalar.decode)),
    ("uniform", .record (.uniform <$> .required "low" Bound.decode <*>
      .required "high" Bound.decode)),
    ("custom", .record (.custom <$> .required "code" .text))]

end Initializer

end ModelBinding
