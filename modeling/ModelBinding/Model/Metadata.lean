import ModelBinding.Document.Versioned
import ModelBinding.Types.Definition
import ModelBinding.Model.Class

/-!
# Metadata

What the exporter says about a model. Its members are more loosely typed than fields are: a kind
by name, an array flag, a shape of one or more axes, and two ways to refer to a type. Here they
become the fields and enumerators that they stand for.
-/
namespace ModelBinding

/-- A shape, which may be a single number. -/
inductive MetadataShape where
  | axis (n : UInt64)
  | axes (list : List UInt64)
deriving DecidableEq

namespace MetadataShape

def toList : MetadataShape → List UInt64
  | .axis n => [n]
  | .axes list => list

def decode : Decoder MetadataShape := fun v =>
  match Decoder.uint64 v with
  | .ok n => .ok (.axis n)
  | .error _ =>
    match Decoder.sequence .uint64 v with
    | .ok list => .ok (.axes list)
    | .error _ => .error (.here (.noAlternative "MetadataShape"))

end MetadataShape

structure MetadataMember where
  name : String
  kind : Option String
  isArray : Bool
  shape : Option MetadataShape
  typeName : Option String
  /-- The type that a pointer points to. -/
  underlying : Option String
  value : Option Int64
deriving DecidableEq

/-- The mode of a kind of member, alone or as an array. -/
def FieldMode.classify (kind : String) (isArray : Bool) : Except Error FieldMode :=
  match kind, isArray with
  | "model", false => .ok .model
  | "plain", false => .ok .plain
  | "plain", true => .ok .plainArray
  | "struct", false => .ok .struct
  | "struct", true => .ok .structArray
  | "enum", false => .ok .enum
  | "enum", true => .ok .enumArray
  | "pointer", false => .ok .pointer
  | "pointer", true => .ok .pointerArray
  | "std", _ => .error (.unsupportedKind "std")
  | _, _ => .error (.unknownKind kind isArray)

namespace MetadataMember

def decode : Decoder MetadataMember :=
  .record (mk <$> .required "name" .text <*> .optional "mode" .text <*>
    .withDefault "is_array" .boolean false <*> .optional "shape" MetadataShape.decode <*>
    .optional "type" .text <*> .optional "underlying" .text <*> .optional "value" .int64)

/-- The type that a member of some kind refers to. -/
def reference (member : MetadataMember) (kind : String) : Option String :=
  if kind = "struct" ∨ kind = "enum" then member.typeName
  else if kind = "pointer" then member.underlying
  else none

/-- The field of a member of that kind. -/
def toFieldOf (member : MetadataMember) (kind : String) : Except Error Field := do
  let mode ← FieldMode.classify kind member.isArray
  if mode.isArray then
    match member.shape with
    | none => .error (.invalidField member.name .arrayWithoutShape)
    | some shape => Field.make member.name "" mode (some shape.toList) (member.reference kind)
  else Field.make member.name "" mode none (member.reference kind)

/-- A member of a struct, which has to say its kind. -/
def toField (member : MetadataMember) : Except Error Field :=
  match member.kind with
  | none => .error (.invalidField member.name .kindMissing)
  | some kind => member.toFieldOf kind

/-- A member of the model class, whatever kind it says. -/
def toModelField (member : MetadataMember) : Except Error Field := member.toFieldOf "model"

def toEnumerator (member : MetadataMember) : Except Error Enumerator :=
  match member.value with
  | none => .error (.invalidField member.name .enumeratorWithoutValue)
  | some value => .ok ⟨member.name, "", value⟩

end MetadataMember

structure MetadataStruct where
  name : String
  location : Location
  isEnum : Bool
  members : List MetadataMember
deriving DecidableEq

namespace MetadataStruct

def decode : Decoder MetadataStruct :=
  .record (mk <$> .required "name" .text <*> .required "location" Location.decode <*>
    .withDefault "is_enum" .boolean false <*>
    .withDefault "fields" (.sequence MetadataMember.decode) [])

def toDefinition (struct : MetadataStruct) : Except Error TypeDefinition :=
  if struct.isEnum then
    (struct.members.mapM MetadataMember.toEnumerator).map fun enumerators =>
      ⟨struct.name, "", struct.location, .enumerators enumerators⟩
  else
    (struct.members.mapM MetadataMember.toField).map fun fields =>
      ⟨struct.name, "", struct.location, .fields fields⟩

end MetadataStruct

structure MetadataClass where
  name : String
  codeNamespace : String
  identifier : String
  /-- The names of the methods. -/
  methods : List String
  members : List MetadataMember
  fieldMapping : TextMap String
  typeMapping : TextMap String
deriving DecidableEq

namespace MetadataClass

def decode : Decoder MetadataClass :=
  .record (mk <$> .required "name" .text <*> .withDefault "namespace" .text "" <*>
    .required "identifier" .text <*>
    .withDefault "methods" (.sequence (.record (.required "name" .text))) [] <*>
    .withDefault "fields" (.sequence MetadataMember.decode) [] <*>
    .withDefault "field_mapping" (.textMap .text) .empty <*>
    .withDefault "type_mapping" (.textMap .text) .empty)

def toMethods (model : MetadataClass) : List Method := model.methods.map fun name => ⟨name, ""⟩

def toFields (model : MetadataClass) : Except Error (List Field) :=
  model.members.mapM MetadataMember.toModelField

end MetadataClass

structure Metadata where
  name : String
  description : String
  author : String
  version : String
  sampleTime : Binary64
  modelClass : MetadataClass
  structs : List MetadataStruct
deriving DecidableEq

namespace Metadata

def decode : Decoder Metadata :=
  .record (mk <$> .required "name" .text <*> .withDefault "description" .text "" <*>
    .withDefault "author" .text "" <*> .withDefault "version" .text "" <*>
    .required "sample_time" .binary64 <*> .required "model_class" MetadataClass.decode <*>
    .withDefault "structs" (.sequence MetadataStruct.decode) [])

def ofJson (text : String) : Except Error Metadata :=
  Json.readVersioned .metadata decode text

/-- The header that the exporter writes for a model. -/
def headers (metadata : Metadata) : List String := [metadata.name ++ ".h"]

end Metadata

end ModelBinding
