/-!
# Field modes

How a field is laid out in the generated structs. The number of a mode is its form in documents.
-/
namespace ModelBinding

inductive FieldMode where
  | model
  | plain
  | plainArray
  | struct
  | structArray
  | enum
  | enumArray
  | pointer
  | pointerArray
deriving DecidableEq, Repr

namespace FieldMode

def all : List FieldMode :=
  [.model, .plain, .plainArray, .struct, .structArray, .enum, .enumArray, .pointer, .pointerArray]

def number : FieldMode → Nat
  | .model => 0
  | .plain => 1
  | .plainArray => 2
  | .struct => 3
  | .structArray => 4
  | .enum => 5
  | .enumArray => 6
  | .pointer => 7
  | .pointerArray => 8

def ofNumber? (n : Nat) : Option FieldMode := all[n]?

def name : FieldMode → String
  | .model => "MODEL"
  | .plain => "PLAIN"
  | .plainArray => "PLAIN_ARRAY"
  | .struct => "STRUCT"
  | .structArray => "STRUCT_ARRAY"
  | .enum => "ENUM"
  | .enumArray => "ENUM_ARRAY"
  | .pointer => "POINTER"
  | .pointerArray => "POINTER_ARRAY"

def isArray : FieldMode → Bool
  | .plainArray | .structArray | .enumArray | .pointerArray => true
  | _ => false

/-- Whether the field names a type: structs, enums and what pointers point to. -/
def namesType : FieldMode → Bool
  | .model | .plain | .plainArray => false
  | _ => true

def isStruct : FieldMode → Bool
  | .struct | .structArray => true
  | _ => false

def isEnum : FieldMode → Bool
  | .enum | .enumArray => true
  | _ => false

def isPointer : FieldMode → Bool
  | .pointer | .pointerArray => true
  | _ => false

end FieldMode

end ModelBinding
