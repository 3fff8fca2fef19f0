import ModelBinding.Environment.Document
import ModelBinding.Model.Class
import ModelBinding.Types.Dependency

/-!
# Modules

A module is all that is bound together: one model class, its types, and the environment around
the model. Any of them can be replaced in a module, so that they go together is said of the modules
that are read or built and not of all.
-/
namespace ModelBinding

structure Module where
  name : String
  doc : String
  version : String
  author : String
  license : String
  modelClass : ModelClass
  types : TypeTable
  env : Environment
deriving DecidableEq

namespace Module

/-- A module of types that are not yet in a table. -/
def make (name doc version author license : String) (modelClass : ModelClass)
    (types : List TypeDefinition) (env : Environment) : Except Error Module :=
  (TypeTable.make types modelClass.identifier).map fun table =>
    ⟨name, doc, version, author, license, modelClass, table, env⟩

/-- The type that plays a role, with the message for when there is none. -/
def filledRole (module : Module) (role message : String) : Except Error PlacedType :=
  match module.modelClass.typeForRole? role with
  | some name => module.types.lookup name
  | none => .error (.roleUnfilled role message)

def roleType (module : Module) (role : String) : Except Error PlacedType :=
  module.filledRole role ("Model has no type for role '" ++ role ++ "'")

def toValue (module : Module) : Value := .ofEntries [
  ("name", .text module.name),
  ("doc", .text module.doc),
  ("version", .text module.version),
  ("author", .text module.author),
  ("license", .text module.license),
  ("model_class", module.modelClass.toValue),
  ("types", module.types.toValue),
  ("env", module.env.toValue)]

def decode : Decoder Module :=
  (Decoder.record (make <$> .required "name" .text <*> .withDefault "doc" .text "" <*>
    .required "version" .text <*> .required "author" .text <*> .required "license" .text <*>
    .required "model_class" ModelClass.decode <*>
    .required "types" (.sequence TypeDefinition.decode) <*>
    .required "env" Environment.decode)).refine (·.mapError Error.message)

end Module

end ModelBinding
