import ModelBinding.Document.Fault
import ModelBinding.Document.Json.Writer
import ModelBinding.Field.Mode
import ModelBinding.Graph.Adjacency
import ModelBinding.Literal.Render

/-!
# Errors

Everything that can stop a run, as its cause. The message, the category and the hint of an error
are functions of the cause.
-/
namespace ModelBinding

/-- The documents that carry a schema version. -/
inductive DocumentKind where
  | context
  | metadata
  | environment
  | model
deriving DecidableEq

def DocumentKind.title : DocumentKind → String
  | .context => "Context"
  | .metadata => "Metadata"
  | .environment => "Environment config"
  | .model => "Model config"

/-- The version of the schema that all documents are written in. -/
def schemaVersion : String := "1.0"

/-- The key that holds the schema version. -/
def versionKey : String := "__version__"

inductive FieldFlaw where
  | shapeMissing (mode : FieldMode)
  | shapeUnexpected (mode : FieldMode)
  | shapeNotPositive (shape : List UInt64)
  | typeMissing (mode : FieldMode)
  | typeUnexpected (mode : FieldMode)
  | typeEmpty
  | modeMissing
  /-- A metadata member without its kind. -/
  | kindMissing
  /-- An array member of the metadata without a shape. -/
  | arrayWithoutShape
  /-- An enumerator of the metadata without a value. -/
  | enumeratorWithoutValue
deriving DecidableEq

inductive TypeFlaw where
  /-- A member with attributes of a field and of an enumerator. -/
  | mixedMember (member : String)
  | valueMissing (member : String)
deriving DecidableEq

/-- The two ends of a range of values. -/
inductive Side where
  | low
  | high
deriving DecidableEq

def Side.name : Side → String
  | .low => "low"
  | .high => "high"

inductive InitializerFlaw where
  | structNeedsCode
  | boundLength (side : Side) (given expected : Nat)
  | boundNotScalar
  /-- A parameter that is no field and is not set by code. -/
  | codeOnly
deriving DecidableEq

inductive SpaceFlaw where
  | shapeNotPositive (shape : List UInt64)
  | boundLength (side : Side) (given expected : Nat)
  | countNotPositive (kind : String) (n : Int64)
  | noCardinalities
  | cardinalityNotPositive (n : Int64)
deriving DecidableEq

inductive ConfigFlaw where
  | fault (document : DocumentKind) (fault : Fault)
  | modelName (name : String)
  | className (name : String)
  | codeNamespace (name : String)

inductive WorkspaceFlaw where
  | notAProject
  | notADirectory
  | alreadyInitialized
  | hasContent
deriving DecidableEq

/-- Why a file could not be read or written. -/
inductive FileFault where
  | notFound
  | notADirectory
  | isADirectory
  | exists
  /-- The content is not UTF-8. -/
  | notText
  /-- Any other reason, as the system words it. -/
  | other (reason : String)
deriving DecidableEq

inductive Error where
  | versionMismatch (document : DocumentKind) (found : Option String)
  | invalidField (field : String) (flaw : FieldFlaw)
  | unsupportedKind (kind : String)
  | unknownKind (kind : String) (isArray : Bool)
  | invalidType (name : String) (flaw : TypeFlaw)
  /-- Two types with one identity. -/
  | duplicateType (identity : String)
  | typeNotFound (name : String)
  | unresolvedReference (owner field target : String)
  /-- The types that contain themselves, directly or through others. -/
  | circularTypes (identities : List String)
  | sort (error : SortError)
  /-- The hierarchy order does not exist. -/
  | hierarchyOrder
  /-- The model has no type for a role. -/
  | roleUnfilled (role message : String)
  | keyNotFound (use key typeName : String)
  | parameterNotFound (key typeName : String)
  | tooFewFields (typeName : String) (required actual : Nat)
  | initializer (field : String) (flaw : InitializerFlaw)
  | space (role : String) (flaw : SpaceFlaw)
  | config (flaw : ConfigFlaw)
  | workspace (path : String) (flaw : WorkspaceFlaw)
  | literal (error : LiteralError)
  /-- A text that is not JSON. -/
  | jsonSyntax
  /-- JSON that is not the record asked for. -/
  | json (fault : Fault)
  /-- A text that is not TOML. -/
  | tomlSyntax
  /-- An integer that TOML cannot hold. -/
  | tomlRange
  | file (path : String) (fault : FileFault)

/-- A coarse classification of errors. -/
inductive ErrorCategory where
  | versionMismatch
  | structural
  | configuration
  | format
  | parse
  | file
deriving DecidableEq

def axes (shape : List UInt64) : String :=
  Text.bracketed (shape.map fun axis => toString axis.toNat)

namespace FieldFlaw

def message : FieldFlaw → String
  | .shapeMissing mode => mode.name ++ " field requires a shape"
  | .shapeUnexpected mode => mode.name ++ " field must not have a shape"
  | .shapeNotPositive shape =>
    "shape must be a non-empty list of positive integers, got " ++ axes shape
  | .typeMissing mode => mode.name ++ " field requires a type"
  | .typeUnexpected mode => mode.name ++ " field must not have a type"
  | .typeEmpty => "type name must not be empty"
  | .modeMissing => "missing mode"
  | .kindMissing => "missing member kind"
  | .arrayWithoutShape => "array member without shape"
  | .enumeratorWithoutValue => "enumerator without value"

end FieldFlaw

namespace TypeFlaw

def message : TypeFlaw → String
  | .mixedMember member => "member '" ++ member ++ "' mixes field and enumerator attributes"
  | .valueMissing member => "enumerator '" ++ member ++ "' has no value"

end TypeFlaw

namespace InitializerFlaw

def message : InitializerFlaw → String
  | .structNeedsCode => "For struct parameters, use \"custom\" type initialization."
  | .boundLength side given expected =>
    side.name ++ " has " ++ toString given ++ " elements but the field has " ++
      toString expected ++ ", broadcast is currently unsupported"
  | .boundNotScalar => "uniform bounds of a scalar field must be scalars"
  | .codeOnly => "keys starting with '@' must use \"custom\" type initialization"

end InitializerFlaw

namespace SpaceFlaw

def message : SpaceFlaw → String
  | .shapeNotPositive shape =>
    "Box shape must be a non-empty list of positive integers, got " ++ axes shape
  | .boundLength side given expected =>
    "Box " ++ side.name ++ " has " ++ toString given ++ " elements, expected 1 or " ++
      toString expected
  | .countNotPositive kind n => kind ++ " n must be positive, got " ++ toString n.toInt
  | .noCardinalities => "MultiDiscrete nvec must not be empty"
  | .cardinalityNotPositive n =>
    "MultiDiscrete cardinalities must be positive, got " ++ toString n.toInt

end SpaceFlaw

namespace ConfigFlaw

/-- Positional throughout; a fraction is always shown. -/
def numbers : NumberLayout where
  isPositional _ := true
  pointZero := true
  plusSign := false
  tie := .upward
  nan := "NaN.0"
  infinity := "inf.0"

/-- What is wrong; where a name is wanted it is not said what is there instead. -/
def reason : Mismatch → String
  | .notAName _ => "invalid type: unit variant"
  | mismatch => mismatch.message numbers

/-- The place of a fault, on a line of its own; the root has none. -/
def place (path : List String) : String :=
  if path.isEmpty then "" else "in `" ++ ".".intercalate path ++ "`\n"

def message : ConfigFlaw → String
  | .fault document f =>
    document.title ++ ": " ++ reason f.mismatch ++ "\n" ++ place f.path
  | .modelName name =>
    "Model name '" ++ name ++
      "' must start with a letter and contain only letters, digits and underscores"
  | .className name => "Class name '" ++ name ++ "' is not a valid C++ identifier"
  | .codeNamespace name => "Namespace '" ++ name ++ "' is not a valid C++ identifier"

end ConfigFlaw

namespace WorkspaceFlaw

def message : WorkspaceFlaw → String
  | .notAProject => "not a project directory, model.toml is missing"
  | .notADirectory => "expected a directory"
  | .alreadyInitialized => "already initialized as a project, choose another path"
  | .hasContent => "has content, expected an empty directory"

end WorkspaceFlaw

namespace FileFault

def message : FileFault → String
  | .notFound => "No such file or directory (os error 2)"
  | .notADirectory => "Not a directory (os error 20)"
  | .isADirectory => "Is a directory (os error 21)"
  | .exists => "File exists (os error 17)"
  | .notText => "stream did not contain valid UTF-8"
  | .other reason => reason

end FileFault

def SortError.message : SortError → String
  | .notSquare rows cols =>
    "Adjacency matrix must be square, but got shape (" ++ toString rows ++ ", " ++
      toString cols ++ ")"
  | .cycle members =>
    "Adjacency matrix contains circular structure (vertices involved: " ++
      Text.bracketed (members.map toString) ++ ")"

namespace Error

def jsonReason : Fault → String := fun fault => fault.mismatch.message Json.numbers

def message : Error → String
  | .versionMismatch document found =>
    document.title ++ " version incompatible: expected " ++ schemaVersion ++ ", found " ++
      found.getD "<missing>"
  | .invalidField field flaw => "Invalid field '" ++ field ++ "': " ++ flaw.message
  | .unsupportedKind kind =>
    "Unsupported field kind '" ++ kind ++ "': no " ++ kind ++ " class support yet"
  | .unknownKind kind isArray =>
    "Unknown field kind '" ++ kind ++ "' (is_array: " ++ (if isArray then "true" else "false") ++
      ")"
  | .invalidType name flaw => "Invalid type '" ++ name ++ "': " ++ flaw.message
  | .duplicateType identity => "Duplicate type declaration '" ++ identity ++ "'"
  | .typeNotFound name => "Can't find type '" ++ name ++ "'"
  | .unresolvedReference owner field target =>
    "Field '" ++ field ++ "' of type '" ++ owner ++ "' references undeclared type '" ++ target ++
      "'"
  | .circularTypes identities =>
    "Circular type reference among: " ++ ", ".intercalate identities
  | .sort error => error.message
  | .hierarchyOrder =>
    "Hierarchy order is not implemented: nested struct hierarchy is dropped"
  | .roleUnfilled _ message => message
  | .keyNotFound use key typeName => use ++ " key '" ++ key ++ "' not found in " ++ typeName
  | .parameterNotFound key typeName =>
    "Environment init parameter '" ++ key ++ "' not found in " ++ typeName
  | .tooFewFields typeName required actual =>
    "Type " ++ typeName ++ " must have at least " ++ toString required ++ " fields, found " ++
      toString actual
  | .initializer field flaw => "Invalid initializer for '" ++ field ++ "': " ++ flaw.message
  | .space role flaw => "Invalid " ++ role ++ " space: " ++ flaw.message
  | .config flaw => "Configuration error: " ++ flaw.message
  | .workspace path flaw => "Workspace " ++ path ++ ": " ++ flaw.message
  | .literal error => error.message
  | .jsonSyntax => "JSON error: not a JSON text"
  | .json fault => "JSON error: " ++ jsonReason fault
  | .tomlSyntax => "TOML error: not a TOML text"
  | .tomlRange => "TOML serialization error: u64 value was too large"
  | .file path fault => "IO error with " ++ path ++ ": " ++ fault.message

def category : Error → ErrorCategory
  | .versionMismatch .. => .versionMismatch
  | .invalidField .. | .unsupportedKind .. | .unknownKind .. | .invalidType ..
  | .duplicateType .. | .typeNotFound .. | .unresolvedReference .. | .circularTypes ..
  | .sort .. | .hierarchyOrder => .structural
  | .roleUnfilled .. | .keyNotFound .. | .parameterNotFound .. | .tooFewFields ..
  | .initializer .. | .space .. | .config .. | .workspace .. => .configuration
  | .literal .. => .format
  | .jsonSyntax | .json .. | .tomlSyntax | .tomlRange => .parse
  | .file .. => .file

/-- Advice for the user, where there is any. -/
def hint? : Error → Option String
  | .versionMismatch .. =>
    some "Hint: Regenerate the document with a matching tool version; documents are never migrated."
  | .keyNotFound .. | .parameterNotFound .. =>
    some "Hint: Check the spelling against the field names listed in the model metadata."
  | .initializer .. => some
    "Hint: Use a \"custom\" initializer for struct parameters and flatten array bounds to one dimension."
  | .tooFewFields .. =>
    some "Hint: The gym wrapper needs separate outports for observation, reward and done."
  | .workspace .. => some
    "Hint: Run `init` in an empty directory first, then place the exported model files next to model.toml."
  | .config .. => some
    "Hint: Compare the document with the one written by `init`; parameter initializers are tagged \"seed\", \"constant\", \"uniform\" or \"custom\"."
  | .circularTypes .. | .sort .. =>
    some "Hint: Nested structs must not reference each other by value."
  | _ => none

/-- The message with the advice after an empty line. -/
def userMessage (error : Error) : String :=
  match error.hint? with
  | none => error.message
  | some hint => error.message ++ "\n\n" ++ hint

/-- What a lower layer said, for the errors that only pass it on. -/
def cause? : Error → Option String
  | .json fault => some (jsonReason fault)
  | .jsonSyntax => some "not a JSON text"
  | .tomlSyntax => some "not a TOML text"
  | .tomlRange => some "u64 value was too large"
  | .file _ fault => some fault.message
  | _ => none

end Error

end ModelBinding
