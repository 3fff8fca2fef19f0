import ModelBinding.Error
import ModelBinding.Field.Basic

/-!
# Spaces

The actions that an environment takes and the observations that it gives. Each kind of space has
a factory in the generated code, which the initializer gives the arguments of.
-/
namespace ModelBinding

inductive Space where
  /-- An array of the given shape and type, each element between two bounds. -/
  | box (low high : Bound) (shape : List UInt64) (type : ElementType)
  | discrete (n : Int64)
  | multiDiscrete (cardinalities : List Int64)
  | multiBinary (n : Int64)
deriving DecidableEq

namespace Space

/-- The unit box of two by two doubles. -/
def default : Space :=
  .box (.scalar (.ofBinary64 (.zero false))) (.scalar (.ofBinary64 (.ofInt 1))) [2, 2] .float64

def kind : Space → String
  | .box .. => "Box"
  | .discrete _ => "Discrete"
  | .multiDiscrete _ => "MultiDiscrete"
  | .multiBinary _ => "MultiBinary"

def elementType : Space → ElementType
  | .box _ _ _ type => type
  | .discrete _ | .multiDiscrete _ => .int64
  | .multiBinary _ => .int8

/-- The factory in the generated code. -/
def factory : Space → String
  | .box _ _ _ type => "make_box<" ++ type.codeName ++ ">"
  | .discrete _ => "make_discrete"
  | .multiDiscrete _ => "make_multi_discrete"
  | .multiBinary _ => "make_multi_binary"

/-- The integers of the space that documents hold as signed or unsigned numbers. -/
def axes : Space → List UInt64
  | .box _ _ shape _ => shape
  | _ => []

/-- The scalars of the bounds. -/
def scalars : Space → List Scalar
  | .box low high _ _ => low.scalars ++ high.scalars
  | _ => []

/-- The list of some integers as a literal. -/
def integers (ns : List Int64) : Except LiteralError String :=
  Literal.sequence (ns.map .int) .int64

/-- The arguments of the factory. An axis is written as a signed number of 64 bits. -/
def initializer : Space → Except LiteralError String
  | .box low high shape type => do
    let low ← Literal.bound low type
    let high ← Literal.bound high type
    let shape ← integers (shape.map UInt64.toInt64)
    return low ++ ", " ++ high ++ ", " ++ shape
  | .discrete n | .multiBinary n => .ok (toString n.toInt)
  | .multiDiscrete cardinalities => integers cardinalities

/-- A bound is one number or as many as there are elements. -/
def boundFlaw? (size : Nat) (side : Side) (bound : Bound) : Option SpaceFlaw :=
  if bound.isSequence ∧ bound.length ≠ size then some (.boundLength side bound.length size)
  else none

/-- What is wrong with a space, its literals apart. The elements of a box are counted in full. -/
def flaw? : Space → Option SpaceFlaw
  | .box low high shape _ =>
    if shape.isEmpty || shape.contains 0 then some (.shapeNotPositive shape)
    else
      let size := Field.volume (Field.extents shape)
      (boundFlaw? size .low low).or (boundFlaw? size .high high)
  | .discrete n => if n.toInt ≤ 0 then some (.countNotPositive "Discrete" n) else none
  | .multiBinary n => if n.toInt ≤ 0 then some (.countNotPositive "MultiBinary" n) else none
  | .multiDiscrete cardinalities =>
    if cardinalities.isEmpty then some .noCardinalities
    else (cardinalities.find? fun n => decide (n.toInt ≤ 0)).map .cardinalityNotPositive

/-- Whether the space makes sense and can be written; `role` names it in errors. -/
def check (space : Space) (role : String) : Except Error Unit :=
  match space.flaw? with
  | some flaw => .error (.space role flaw)
  | none =>
    match space.initializer with
    | .error error => .error (.literal error)
    | .ok _ => .ok ()

def toValue : Space → Value
  | .box low high shape type => .ofEntries [
      ("type", .text "Box"), ("low", low.toValue), ("high", high.toValue),
      ("shape", .sequence (shape.map .ofUInt64)), ("dtype", .text type.name)]
  | .discrete n => .ofEntries [("type", .text "Discrete"), ("n", .integer n)]
  | .multiDiscrete cardinalities => .ofEntries [
      ("type", .text "MultiDiscrete"), ("nvec", .sequence (cardinalities.map .integer))]
  | .multiBinary n => .ofEntries [("type", .text "MultiBinary"), ("n", .integer n)]

def decode : Decoder Space :=
  .tagged [
    ("Box", .record (.box <$> .required "low" Bound.decode <*> .required "high" Bound.decode <*>
      .required "shape" (.sequence .uint64) <*> .required "dtype" (.oneOf ElementType.names))),
    ("Discrete", .record (.discrete <$> .required "n" .int64)),
    ("MultiDiscrete", .record (.multiDiscrete <$> .required "nvec" (.sequence .int64))),
    ("MultiBinary", .record (.multiBinary <$> .required "n" .int64))]

end Space

end ModelBinding
