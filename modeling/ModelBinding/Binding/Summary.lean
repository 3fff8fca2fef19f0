import ModelBinding.Binding.Context

/-!
# Summaries

What a context is in a few lines, or in some more.
-/
namespace ModelBinding.Context

/-- Positional throughout, a whole number without a point. -/
def sampleTimeNumbers : NumberLayout where
  isPositional _ := true
  pointZero := false
  plusSign := false
  tie := .upward

def list (names : List String) : String := ", ".intercalate names

/-- The types, sources and wrappers, a line each. -/
def compactSummary (context : Context) : Except Error String := do
  let module := context.module
  let order ← module.types.dependencyOrder
  return module.name ++ " " ++ module.version ++ " (" ++ module.modelClass.name ++ ")\n" ++
    "  Types: " ++ list (order.map (·.name)) ++ "\n" ++
    "  Sources: " ++ list context.sources ++ "\n" ++
    "  Wrappers: " ++ list module.env.wrappers ++ "\n"

def moduleLines (module : Module) : String :=
  "\nModule " ++ module.name ++ "\n" ++
  (if module.doc.isEmpty then "" else "  " ++ module.doc ++ "\n") ++
  "  Version: " ++ module.version ++ "\n" ++
  "  Author: " ++ module.author ++ "\n" ++
  "  License: " ++ module.license ++ "\n"

def classLines (model : ModelClass) : String :=
  "\nModel class " ++ model.name ++ " (" ++ model.identifier ++ ")\n" ++
  "  Sample time: " ++ model.sampleTime.text sampleTimeNumbers ++ "\n" ++
  String.join (model.fields.map fun field =>
    "  - " ++ field.name ++ ": " ++ Role.describe field.name ++ "\n")

def typeLine (type : PlacedType) : String :=
  "  " ++ (if type.definition.isEnum then "enum" else "struct") ++ " " ++ type.name ++ " [" ++
    type.definition.location.name ++ ", " ++ toString type.definition.members.length ++
    " members]: " ++ Role.describe type.name ++ "\n"

def typeLines (types : TypeTable) : Except Error String :=
  types.dependencyOrder.map fun order =>
    "\nTypes (" ++ toString types.inRoot.length ++ " in root, " ++
      toString types.inModelClass.length ++ " in model class), dependency order:\n" ++
      String.join (order.map typeLine)

def gymLines (gym : Gym) : Except Error String := do
  let reward ← gym.rewardInitializer.mapError Error.literal
  return "  Action: " ++ gym.actionKey.getD "" ++ " (" ++ gym.actionSpace.factory ++ ")\n" ++
    "  Observation: " ++ gym.observationKey.getD "" ++ " (" ++ gym.observationSpace.factory ++
    ")\n" ++
    "  Reward: " ++ gym.rewardKey.getD "" ++ " [" ++ reward ++ "]\n" ++
    "  Done: " ++ gym.doneKey.getD "" ++ "\n"

def environmentLines (env : Environment) : Except Error String := do
  let gym ← match env.activeGym with
    | none => pure ""
    | some gym => gymLines gym
  return "\nWrappers: " ++ list env.wrappers ++ "\n" ++ gym ++
    if env.parameter.isEmpty then ""
    else "  Parameters: " ++ list env.parameter.keys ++ " (" ++
      list (Initializer.kinds env.parameter.values) ++ ")\n"

/-- The module, its class, its types in order and its environment. -/
def prettySummary (context : Context) : Except Error String := do
  let module := context.module
  let types ← typeLines module.types
  let environment ← environmentLines module.env
  return moduleLines module ++ classLines module.modelClass ++ types ++ environment

end ModelBinding.Context
