import ModelBinding.Document.Versioned

/-!
# Model settings

What the user says about a model: its name, how the exporter generates code for it, the names in
the C++ code, and the texts that describe it.
-/
namespace ModelBinding

def isLetter (c : Char) : Bool := c.isAlpha

/-- A letter, a digit or an underscore, of the ASCII characters only. -/
def isNameChar (c : Char) : Bool := c.isAlphanum || c == '_'

/-- Whether a text begins with a letter and goes on with letters, digits and underscores. -/
def isModelName (name : String) : Bool :=
  match name.toList with
  | [] => false
  | c :: rest => isLetter c && rest.all isNameChar

/-- Whether a text can be an identifier in the generated code, reserved words aside. -/
def isIdentifier (name : String) : Bool :=
  match name.toList with
  | [] => false
  | c :: rest => (isLetter c || c == '_') && rest.all isNameChar

inductive Solver where
  | fixedStepAuto
  | fixedStepDiscrete
  | ode8
  | ode5
  | ode4
  | ode3
  | ode2
  | ode1
  | ode14x
deriving DecidableEq

namespace Solver

def name : Solver → String
  | .fixedStepAuto => "FixedStepAuto"
  | .fixedStepDiscrete => "FixedStepDiscrete"
  | .ode8 => "ode8"
  | .ode5 => "ode5"
  | .ode4 => "ode4"
  | .ode3 => "ode3"
  | .ode2 => "ode2"
  | .ode1 => "ode1"
  | .ode14x => "ode14x"

/-- In order of declaration. -/
def all : List Solver :=
  [.fixedStepAuto, .fixedStepDiscrete, .ode8, .ode5, .ode4, .ode3, .ode2, .ode1, .ode14x]

def decode : Decoder Solver := .oneOf (all.map fun s => (s.name, s))

end Solver

/-- How the exporter generates code. -/
structure ExportSettings where
  solver : Solver
  absoluteTime : Bool
  integerCode : Bool
  nonFinite : Bool
  complex : Bool
  continuousTime : Bool
  variableSizeSignal : Bool
  nonInlined : Bool
deriving DecidableEq

namespace ExportSettings

def default : ExportSettings := ⟨.fixedStepAuto, false, false, false, false, false, false, false⟩

def toValue (s : ExportSettings) : Value := .ofEntries [
  ("solver", .text s.solver.name),
  ("absolute_time", .boolean s.absoluteTime),
  ("integer_code", .boolean s.integerCode),
  ("non_finite", .boolean s.nonFinite),
  ("complex", .boolean s.complex),
  ("continuous_time", .boolean s.continuousTime),
  ("variable_size_signal", .boolean s.variableSizeSignal),
  ("non_inlined_sfcn", .boolean s.nonInlined)]

def decode : Decoder ExportSettings :=
  .record (mk <$> .required "solver" Solver.decode <*> .required "absolute_time" .boolean <*>
    .required "integer_code" .boolean <*> .required "non_finite" .boolean <*>
    .required "complex" .boolean <*> .required "continuous_time" .boolean <*>
    .required "variable_size_signal" .boolean <*> .required "non_inlined_sfcn" .boolean)

end ExportSettings

/-- The names of a model in the generated code. -/
structure CodeNames where
  className : String
  codeNamespace : String
deriving DecidableEq

namespace CodeNames

def toValue (names : CodeNames) : Value := .ofEntries [
  ("class_name", .text names.className),
  ("namespace", .text names.codeNamespace)]

def decode : Decoder CodeNames :=
  .record (mk <$> .required "class_name" .text <*> .required "namespace" .text)

end CodeNames

/-- The texts that describe a model; `<auto>` stands for what the metadata says. -/
structure Description where
  description : String
  version : String
  author : String
  license : String
deriving DecidableEq

namespace Description

def auto : String := "<auto>"

def noLicense : String := "<no-license>"

def default : Description := ⟨auto, auto, auto, noLicense⟩

def resolve (text fromMetadata : String) : String :=
  if text = auto then fromMetadata else text

def resolveLicense (d : Description) : String :=
  if d.license = noLicense then "" else d.license

def toValue (d : Description) : Value := .ofEntries [
  ("description", .text d.description),
  ("version", .text d.version),
  ("author", .text d.author),
  ("license", .text d.license)]

def decode : Decoder Description :=
  .record (mk <$> .required "description" .text <*> .required "version" .text <*>
    .required "author" .text <*> .required "license" .text)

end Description

structure ModelSettings where
  model : String
  generation : ExportSettings
  code : CodeNames
  description : Description
deriving DecidableEq

namespace ModelSettings

/-- The settings of a new project. -/
def make (model className codeNamespace : String) : ModelSettings :=
  ⟨model, .default, ⟨className, codeNamespace⟩, .default⟩

/-- Whether the names can be used in the generated code; the namespace may be empty. -/
def validate (settings : ModelSettings) : Except Error Unit :=
  if !isModelName settings.model then .error (.config (.modelName settings.model))
  else if !isIdentifier settings.code.className then
    .error (.config (.className settings.code.className))
  else if !settings.code.codeNamespace.isEmpty && !isIdentifier settings.code.codeNamespace then
    .error (.config (.codeNamespace settings.code.codeNamespace))
  else .ok ()

def toValue (settings : ModelSettings) : Value := .ofEntries [
  ("model", .text settings.model),
  ("simulink", settings.generation.toValue),
  ("cpp", settings.code.toValue),
  ("info", settings.description.toValue)]

def decode : Decoder ModelSettings :=
  .record (mk <$> .required "model" .text <*> .required "simulink" ExportSettings.decode <*>
    .required "cpp" CodeNames.decode <*> .required "info" Description.decode)

def ofToml (text : String) : Except Error ModelSettings := do
  let settings ← Toml.readVersioned .model decode text
  settings.validate
  return settings

def toToml (settings : ModelSettings) : Except Error String :=
  Toml.writeVersioned settings.toValue

end ModelSettings

end ModelBinding
