import ModelBinding.Document.Record
import ModelBinding.Error

/-!
# Fields and enumerators

The members of the generated types. A field has a shape exactly if its mode is one of an array,
and names a type exactly if its mode refers to one: there are no other fields, and `Field.make`
refuses what would not be one.
-/
namespace ModelBinding

namespace Field

/-- Shape and type are there exactly where the mode wants them, and not empty. -/
structure Fits (mode : FieldMode) (rawShape : Option (List UInt64)) (typeName : Option String) :
    Prop where
  shape_iff : rawShape.isSome = mode.isArray
  shape_positive : ∀ shape ∈ rawShape, shape ≠ [] ∧ 0 ∉ shape
  type_iff : typeName.isSome = mode.namesType
  type_nonempty : ∀ type ∈ typeName, type ≠ ""

def shapeFlaw? (mode : FieldMode) : Option (List UInt64) → Option FieldFlaw
  | none => if mode.isArray then some (.shapeMissing mode) else none
  | some shape =>
    if !mode.isArray then some (.shapeUnexpected mode)
    else if shape.isEmpty || shape.contains 0 then some (.shapeNotPositive shape)
    else none

def typeFlaw? (mode : FieldMode) : Option String → Option FieldFlaw
  | none => if mode.namesType then some (.typeMissing mode) else none
  | some type =>
    if !mode.namesType then some (.typeUnexpected mode)
    else if type.isEmpty then some .typeEmpty
    else none

variable {mode : FieldMode} {rawShape : Option (List UInt64)} {typeName : Option String}

theorem shapeFlaw?_eq_none : shapeFlaw? mode rawShape = none ↔
    rawShape.isSome = mode.isArray ∧ ∀ shape ∈ rawShape, shape ≠ [] ∧ 0 ∉ shape := by
  unfold shapeFlaw?
  cases rawShape with
  | none => cases mode.isArray <;> simp
  | some shape => cases mode.isArray <;> simp

theorem typeFlaw?_eq_none : typeFlaw? mode typeName = none ↔
    typeName.isSome = mode.namesType ∧ ∀ type ∈ typeName, type ≠ "" := by
  unfold typeFlaw?
  cases typeName with
  | none => cases mode.namesType <;> simp
  | some type => cases mode.namesType <;> simp

theorem fits_iff : Fits mode rawShape typeName ↔
    shapeFlaw? mode rawShape = none ∧ typeFlaw? mode typeName = none := by
  rw [shapeFlaw?_eq_none, typeFlaw?_eq_none]
  exact ⟨fun h => ⟨⟨h.shape_iff, h.shape_positive⟩, h.type_iff, h.type_nonempty⟩,
    fun h => ⟨h.1.1, h.1.2, h.2.1, h.2.2⟩⟩

instance : Decidable (Fits mode rawShape typeName) :=
  decidable_of_iff _ fits_iff.symm

end Field

/-- A field by its place in a struct or in the model class. -/
structure Field where
  name : String
  doc : String
  mode : FieldMode
  /-- The extents of an array, in column-major order. -/
  rawShape : Option (List UInt64)
  typeName : Option String
  fits : Field.Fits mode rawShape typeName
deriving DecidableEq

namespace Field

/-- A field, unless shape or type do not go with the mode. -/
def make (name doc : String) (mode : FieldMode) (rawShape : Option (List UInt64))
    (typeName : Option String) : Except Error Field :=
  match hshape : shapeFlaw? mode rawShape with
  | some flaw => .error (.invalidField name flaw)
  | none =>
    match htype : typeFlaw? mode typeName with
    | some flaw => .error (.invalidField name flaw)
    | none => .ok ⟨name, doc, mode, rawShape, typeName, fits_iff.2 ⟨hshape, htype⟩⟩

def plain (name : String) : Field := ⟨name, "", .plain, none, none, by decide⟩

/-- A member of the model class. -/
def ofModel (name : String) : Field := ⟨name, "", .model, none, none, by decide⟩

def extents (shape : List UInt64) : List Nat := shape.map UInt64.toNat

/-- The product of some extents. -/
def volume (shape : List Nat) : Nat := shape.foldl (· * ·) 1

/--
The shape in row-major order: the extents reversed, except that a row or a column of a matrix is
one axis.
-/
def rowMajor : List Nat → List Nat
  | [a, b] => if a = 1 ∨ b = 1 then [a * b] else [b, a]
  | shape => shape.reverse

def shape? (field : Field) : Option (List Nat) :=
  field.rawShape.map fun raw => rowMajor (extents raw)

/-- How many elements the field has. -/
def size (field : Field) : Nat :=
  match field.shape? with
  | none => 1
  | some shape => volume shape

/--
How many elements the field has by a count in a word of 64 bits, which wraps around where they are
too many for it.
-/
def count (field : Field) : UInt64 :=
  match field.rawShape with
  | none => 1
  | some shape => shape.foldl (· * ·) 1

def shapeValue : Option (List UInt64) → Value
  | none => .null
  | some shape => .sequence (shape.map .ofUInt64)

def toValue (field : Field) : Value := .ofEntries [
  ("name", .text field.name),
  ("doc", .text field.doc),
  ("mode", .integer (.ofNat field.mode.number)),
  ("shape", shapeValue field.rawShape),
  ("type", .ofText? field.typeName)]

end Field

def FieldMode.decode : Decoder FieldMode :=
  Decoder.uint8.refine fun n =>
    match FieldMode.ofNumber? n.toNat with
    | some mode => .ok mode
    | none => .error ("Unsupported field mode: " ++ toString n.toNat)

namespace Field

def decode : Decoder Field :=
  (Decoder.record (make <$> .required "name" .text <*> .withDefault "doc" .text "" <*>
    .required "mode" FieldMode.decode <*> .optional "shape" (.sequence .uint64) <*>
    .optional "type" .text)).refine (·.mapError Error.message)

end Field

/-- A named constant of an enum. -/
structure Enumerator where
  name : String
  doc : String
  value : Int64
deriving DecidableEq

namespace Enumerator

def toValue (e : Enumerator) : Value := .ofEntries [
  ("name", .text e.name),
  ("doc", .text e.doc),
  ("value", .integer e.value)]

def decode : Decoder Enumerator :=
  .record (mk <$> .required "name" .text <*> .withDefault "doc" .text "" <*>
    .required "value" .int64)

end Enumerator

end ModelBinding
