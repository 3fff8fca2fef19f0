import ModelBinding.Field.Basic

/-!
# Type definitions

Structs and enums as documents declare them. In a document both list their members in the same
form; a definition is read only if its members are all of the kind that it declares.
-/
namespace ModelBinding

/-- Where a type is declared in the generated code: at the top or inside the model class. -/
inductive Location where
  | root
  | modelClass
deriving DecidableEq

namespace Location

def name : Location → String
  | .root => "root"
  | .modelClass => "model_class"

def decode : Decoder Location :=
  .oneOf ([.root, .modelClass].map fun l => (name l, l))

end Location

inductive Members where
  | fields (list : List Field)
  | enumerators (list : List Enumerator)
deriving DecidableEq

namespace Members

def names : Members → List String
  | .fields list => list.map (·.name)
  | .enumerators list => list.map (·.name)

def length (members : Members) : Nat := members.names.length

def toValue : Members → Value
  | .fields list => .sequence (list.map Field.toValue)
  | .enumerators list => .sequence (list.map Enumerator.toValue)

end Members

structure TypeDefinition where
  name : String
  doc : String
  location : Location
  members : Members
deriving DecidableEq

/-- A member of a struct or of an enum as it stands in a document. -/
structure MemberEntry where
  name : String
  doc : String
  mode : Option FieldMode
  shape : Option (List UInt64)
  typeName : Option String
  value : Option Int64

namespace MemberEntry

def decode : Decoder MemberEntry :=
  .record (mk <$> .required "name" .text <*> .withDefault "doc" .text "" <*>
    .optional "mode" FieldMode.decode <*> .optional "shape" (.sequence .uint64) <*>
    .optional "type" .text <*> .optional "value" .int64)

/-- The entry as an enumerator of the type `owner`. -/
def toEnumerator (owner : String) (entry : MemberEntry) : Except Error Enumerator :=
  if entry.mode.isSome || entry.shape.isSome || entry.typeName.isSome then
    .error (.invalidType owner (.mixedMember entry.name))
  else
    match entry.value with
    | none => .error (.invalidType owner (.valueMissing entry.name))
    | some value => .ok ⟨entry.name, entry.doc, value⟩

/-- The entry as a field of the type `owner`. -/
def toField (owner : String) (entry : MemberEntry) : Except Error Field :=
  if entry.value.isSome then .error (.invalidType owner (.mixedMember entry.name))
  else
    match entry.mode with
    | none => .error (.invalidField entry.name .modeMissing)
    | some mode => Field.make entry.name entry.doc mode entry.shape entry.typeName

end MemberEntry

namespace TypeDefinition

def isEnum (type : TypeDefinition) : Bool :=
  match type.members with
  | .fields _ => false
  | .enumerators _ => true

/-- The fields of a struct; an enum has none. -/
def fields (type : TypeDefinition) : List Field :=
  match type.members with
  | .fields list => list
  | .enumerators _ => []

def enumerators (type : TypeDefinition) : List Enumerator :=
  match type.members with
  | .fields _ => []
  | .enumerators list => list

def hasMember (type : TypeDefinition) (name : String) : Bool :=
  type.members.names.contains name

/-- The field of that name, the last one if there are several. -/
def field? (type : TypeDefinition) (name : String) : Option Field :=
  type.fields.reverse.find? (·.name = name)

def ofEntries (name doc : String) (location : Location) (isEnum : Bool)
    (entries : List MemberEntry) : Except Error TypeDefinition :=
  if isEnum then
    (entries.mapM (MemberEntry.toEnumerator name)).map fun enumerators =>
      ⟨name, doc, location, .enumerators enumerators⟩
  else
    (entries.mapM (MemberEntry.toField name)).map fun fields =>
      ⟨name, doc, location, .fields fields⟩

def decode : Decoder TypeDefinition :=
  (Decoder.record (ofEntries <$> .required "name" .text <*> .withDefault "doc" .text "" <*>
    .required "location" Location.decode <*> .withDefault "is_enum" .boolean false <*>
    .required "fields" (.sequence MemberEntry.decode))).refine (·.mapError Error.message)

end TypeDefinition

end ModelBinding
