/-!
# Element types

The numeric types of array elements and of space bounds, with their names in documents and in
the generated code.
-/
namespace ModelBinding

inductive ElementType where
  | uint8 | int8 | uint16 | int16 | uint32 | int32 | uint64 | int64 | float32 | float64
deriving DecidableEq, Repr

namespace ElementType

def name : ElementType → String
  | .uint8 => "uint8"
  | .int8 => "int8"
  | .uint16 => "uint16"
  | .int16 => "int16"
  | .uint32 => "uint32"
  | .int32 => "int32"
  | .uint64 => "uint64"
  | .int64 => "int64"
  | .float32 => "float32"
  | .float64 => "float64"

/-- The type in the generated code. -/
def codeName : ElementType → String
  | .uint8 => "uint8_t"
  | .int8 => "int8_t"
  | .uint16 => "uint16_t"
  | .int16 => "int16_t"
  | .uint32 => "uint32_t"
  | .int32 => "int32_t"
  | .uint64 => "uint64_t"
  | .int64 => "int64_t"
  | .float32 => "float"
  | .float64 => "double"

/-- In order of declaration. -/
def all : List ElementType :=
  [.uint8, .int8, .uint16, .int16, .uint32, .int32, .uint64, .int64, .float32, .float64]

/-- The types by their names. -/
def names : List (String × ElementType) := all.map fun t => (t.name, t)

def ofName? (name : String) : Option ElementType := names.lookup name

/-- The least and the greatest integer of an integer type. -/
def range? : ElementType → Option (Int × Int)
  | .uint8 => some (0, 0xff)
  | .int8 => some (-0x80, 0x7f)
  | .uint16 => some (0, 0xffff)
  | .int16 => some (-0x8000, 0x7fff)
  | .uint32 => some (0, 0xffffffff)
  | .int32 => some (-0x80000000, 0x7fffffff)
  | .uint64 => some (0, 0xffffffffffffffff)
  | .int64 => some (-0x8000000000000000, 0x7fffffffffffffff)
  | .float32 | .float64 => none

def isFloat : ElementType → Bool
  | .float32 | .float64 => true
  | _ => false

def isInteger (type : ElementType) : Bool := !type.isFloat

/-- What follows a floating point literal of the type. -/
def suffix : ElementType → String
  | .float32 => "F"
  | _ => ""

theorem isInteger_iff_range (type : ElementType) : type.isInteger = type.range?.isSome := by
  cases type <;> rfl

end ElementType

end ModelBinding
