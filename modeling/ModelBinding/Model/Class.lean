import ModelBinding.Field.Basic

/-!
# The model class

The class that the code generator emits for a model, with the structs and fields that play a
role in it.
-/
namespace ModelBinding

structure Method where
  name : String
  doc : String
deriving DecidableEq

namespace Method

def toValue (method : Method) : Value := .ofEntries [
  ("name", .text method.name),
  ("doc", .text method.doc)]

def decode : Decoder Method :=
  .record (mk <$> .required "name" .text <*> .withDefault "doc" .text "")

end Method

structure ModelClass where
  name : String
  doc : String
  codeNamespace : String
  identifier : String
  sampleTime : Binary64
  methods : List Method
  fields : List Field
  /-- The field that plays a role. -/
  fieldMapping : TextMap String
  /-- The type that plays a role. -/
  typeMapping : TextMap String
deriving DecidableEq

namespace ModelClass

def aliasName : String := "SlxpyExtensionModelClass"

def bindingName (model : ModelClass) : String := model.name

def bindingIdentifier (model : ModelClass) : String := model.bindingName ++ "_PB"

def typeForRole? (model : ModelClass) (role : String) : Option String :=
  model.typeMapping.get? role

def fieldForRole? (model : ModelClass) (role : String) : Option String :=
  model.fieldMapping.get? role

def mappingValue (mapping : TextMap String) : Value :=
  .table (mapping.entries.map fun (key, name) => (key, .text name))

def toValue (model : ModelClass) : Value := .ofEntries [
  ("name", .text model.name),
  ("doc", .text model.doc),
  ("namespace", .text model.codeNamespace),
  ("identifier", .text model.identifier),
  ("sample_time", .float model.sampleTime),
  ("methods", .sequence (model.methods.map Method.toValue)),
  ("fields", .sequence (model.fields.map Field.toValue)),
  ("field_mapping", mappingValue model.fieldMapping),
  ("type_mapping", mappingValue model.typeMapping),
  ("_alias_name", .text aliasName),
  ("_binding_name", .text model.bindingName),
  ("_binding_identifier", .text model.bindingIdentifier)]

def decode : Decoder ModelClass :=
  .record (mk <$> .required "name" .text <*> .withDefault "doc" .text "" <*>
    .withDefault "namespace" .text "" <*> .required "identifier" .text <*>
    .required "sample_time" .binary64 <*> .required "methods" (.sequence Method.decode) <*>
    .required "fields" (.sequence Field.decode) <*>
    .required "field_mapping" (.textMap .text) <*> .required "type_mapping" (.textMap .text))

end ModelClass

end ModelBinding
