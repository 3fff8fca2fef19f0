import ModelBinding.Binding.Compatibility
import ModelBinding.Binding.Concise
import ModelBinding.Model.Metadata
import ModelBinding.Model.Settings

/-!
# Contexts

A context is the root of the intermediate representation: a module with the sources and headers
that it comes from. It is built from what the exporter and the user say, and it is written down
in full or without what reading finds out again.
-/
namespace ModelBinding

structure Context where
  sources : List String
  headers : List String
  module : Module
deriving DecidableEq

namespace Context

def toValue (context : Context) : Value := .ofEntries [
  ("sources", .ofTexts context.sources),
  ("headers", .ofTexts context.headers),
  ("module", context.module.toValue)]

def decode : Decoder Context :=
  .record (mk <$> .required "sources" (.sequence .text) <*>
    .required "headers" (.sequence .text) <*> .required "module" Module.decode)

/-- The document of a context, with its version. -/
def document (context : Context) (mode : DumpMode) : Value :=
  (normalize mode false context.toValue.withoutNonFinite).withEntry versionKey
    (.text schemaVersion)

/-- The text of the document. -/
def dump (context : Context) (mode : DumpMode) : String :=
  Json.spreadText (context.document mode)

def ofJson (text : String) (rounding : Rounding := .bestEffort) : Except Error Context :=
  Json.readVersioned .context decode text rounding

/-- A context of a value, whatever version it says. -/
def reconstruct (v : Value) : Except Error Context := Json.read decode v

/-- The context that the full document gives. -/
def refresh (context : Context) : Except Error Context := reconstruct (context.document .debug)

/-- The model class that metadata and settings describe. -/
def modelClass (metadata : Metadata) (doc : String) : Except Error ModelClass :=
  metadata.modelClass.toFields.map fun fields => {
    name := metadata.modelClass.name
    doc := doc
    codeNamespace := metadata.modelClass.codeNamespace
    identifier := metadata.modelClass.identifier
    sampleTime := metadata.sampleTime
    methods := metadata.modelClass.toMethods
    fields := fields
    fieldMapping := metadata.modelClass.fieldMapping
    typeMapping := metadata.modelClass.typeMapping }

/--
The context of a model. Its types have to have an order, and the environment has to go with the
model.
-/
def build (metadata : Metadata) (settings : ModelSettings) (env : Environment)
    (sources headers : List String) : Except Error Context := do
  let texts := settings.description
  let doc := Description.resolve texts.description metadata.description
  let modelClass ← modelClass metadata doc
  let definitions ← metadata.structs.mapM MetadataStruct.toDefinition
  let types ← TypeTable.make definitions modelClass.identifier
  discard types.dependencyOrder
  let module ← Module.prepare {
    name := metadata.name
    doc := doc
    version := Description.resolve texts.version metadata.version
    author := Description.resolve texts.author metadata.author
    license := texts.resolveLicense
    modelClass := modelClass
    types := types
    env := env }
  return ⟨sources, headers, module⟩

end Context

end ModelBinding
