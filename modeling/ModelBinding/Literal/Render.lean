import ModelBinding.Literal.ElementType
import ModelBinding.Literal.Scalar

/-!
# Number literals

How numbers and lists of numbers are written in the generated C++ code. An integer literal is
the exact number or there is none; a floating point literal is the nearest double with the
suffix of its type; an infinity is an expression.
-/
namespace ModelBinding

inductive LiteralError where
  | outOfRange (value : Scalar) (type : ElementType)
  | notAnInteger (value : Scalar) (type : ElementType)
  | notANumber (type : ElementType)
  | notAFloat (type : ElementType)
deriving DecidableEq

namespace LiteralError

def message : LiteralError → String
  | .outOfRange value type =>
    "Integer value " ++ value.text ++ " out of range for dtype " ++ type.name
  | .notAnInteger value type =>
    "Value " ++ value.text ++ " is not an integer, but dtype " ++ type.name ++ " requires one"
  | .notANumber type => "NaN cannot be rendered as a " ++ type.name ++ " literal"
  | .notAFloat type => "Dtype " ++ type.name ++ " is not a floating point dtype"

end LiteralError

namespace Literal

def integer (value : Scalar) (type : ElementType) : Except LiteralError String :=
  match value.toInt?, type.range? with
  | some i, some (least, greatest) =>
    if least ≤ i ∧ i ≤ greatest then .ok (toString i) else .error (.outOfRange value type)
  | _, _ => .error (.notAnInteger value type)

def infinity (negative : Bool) (type : ElementType) : String :=
  (if negative then "-" else "") ++ "std::numeric_limits<" ++ type.codeName ++ ">::infinity()"

/-- The literal of a double. -/
def double (x : Binary64) (type : ElementType) : Except LiteralError String :=
  if x.isNan then .error (.notANumber type)
  else .ok (x.text Scalar.numbers ++ type.suffix)

def floating (value : Scalar) (type : ElementType) : Except LiteralError String :=
  if type.isFloat then
    match value with
    | .infinity negative => .ok (infinity negative type)
    | .float x => double x type
    | .int i => double (.ofInt i.toInt) type
    | .uint n => double (.ofInt n.toNat) type
  else .error (.notAFloat type)

def number (value : Scalar) (type : ElementType) : Except LiteralError String :=
  if type.isInteger then integer value type else floating value type

/-- Items between braces. -/
def braced (items : List String) : String :=
  "\x7b " ++ ", ".intercalate items ++ " \x7d"

def sequence (values : List Scalar) (type : ElementType) : Except LiteralError String :=
  (values.mapM fun value => number value type).map braced

def bound (value : Bound) (type : ElementType) : Except LiteralError String :=
  match value with
  | .scalar value => number value type
  | .each values => sequence values type

end Literal

end ModelBinding
