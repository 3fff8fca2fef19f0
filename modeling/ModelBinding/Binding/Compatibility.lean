import ModelBinding.Binding.Module
import ModelBinding.Model.Role

/-!
# The environment against the model

First the environment is checked: every name that it uses has to be one of the model. Then the
keys of the gym view that were left open are filled in by position.
-/
namespace ModelBinding

/-- Observation, reward and end of an episode each need an output. -/
def leastOutputs : Nat := 3

def noInputs : String := "Model must have at least one inport."

def noOutputs : String := "Model must have at least one outport."

def noParameters : String :=
  "Model must have at least one parameter.\n" ++
  "Environment without parameters is most likely a modeling mistake.\n" ++
  "Make sure that your tunable parameters are\n" ++
  "    1. in model workspace\n" ++
  "    2. of Simulink Parameter type\n" ++
  "    3. with Argument checkbox checked\n" ++
  "For more information, see documentation."

/-- Whether a key is a member of a type; `use` says what the key is for. -/
def requireKey (use key : String) (type : PlacedType) : Except Error Unit :=
  if type.definition.hasMember key then .ok () else .error (.keyNotFound use key type.name)

/-- A key that is left open requires nothing. -/
def requireKey? (use : String) (key : Option String) (type : PlacedType) : Except Error Unit :=
  match key with
  | none => .ok ()
  | some key => requireKey use key type

/-- The name of the field at a position. -/
def keyAt (type : PlacedType) (position : Nat) : Except Error String :=
  match type.definition.fields[position]? with
  | some field => .ok field.name
  | none => .error (.tooFewFields type.name (position + 1) type.definition.fields.length)

namespace Gym

/-- Whether the gym view goes with the inputs and outputs of a model. -/
def check (gym : Gym) (inputs outputs : PlacedType) : Except Error Unit := do
  requireKey? "Action" gym.actionKey inputs
  if outputs.definition.fields.length < leastOutputs then
    throw (.tooFewFields outputs.name leastOutputs outputs.definition.fields.length)
  requireKey? "Observation" gym.observationKey outputs
  requireKey? "Reward" gym.rewardKey outputs
  requireKey? "Done" gym.doneKey outputs
  match gym.info with
  | .all _ => pure ()
  | .keys ks => ks.forM fun key => requireKey "Info" key outputs
  gym.actionSpace.check "action"
  gym.observationSpace.check "observation"
  discard (gym.rewardInitializer.mapError Error.literal)

/-- The outputs that are reported, given the keys that are in use. -/
def resolveInfo (info : InfoSelector) (used : List String) (outputs : PlacedType) : InfoSelector :=
  match info with
  | .keys ks => .keys ks
  | .all false => .keys []
  | .all true =>
    .keys ((outputs.definition.fields.map (·.name)).filter fun name => !used.contains name)

end Gym

namespace Initializer

/-- Whether the initializer of a parameter can be applied to it. -/
def checkParameter (parameters : PlacedType) (key : String) (init : Initializer) :
    Except Error Unit :=
  if key.toList.head? = some '@' then
    if init.isCustom then .ok () else .error (.initializer key .codeOnly)
  else
    match parameters.definition.field? key with
    | some field => init.check field
    | none => .error (.parameterNotFound key parameters.name)

end Initializer

namespace Environment

/-- Whether the environment goes with a module. Without a wrapper nothing is asked for. -/
def check (env : Environment) (module : Module) : Except Error Unit := do
  if !env.useGym && !env.useRaw then return ()
  let inputs ← module.filledRole Role.externalInputs noInputs
  let outputs ← module.filledRole Role.externalOutputs noOutputs
  let parameters ← module.filledRole Role.instanceParameters noParameters
  match env.activeGym with
  | none => pure ()
  | some gym => gym.check inputs outputs
  env.parameter.entries.forM fun (key, init) => init.checkParameter parameters key

/--
The gym view with its open keys filled in, as far as that goes: the action is the first input,
observation, reward and end are the first three outputs. The view is returned beside the error
that stopped it.
-/
def fillGym (gym : Gym) (inputs outputs : PlacedType) : Gym × Except Error Unit :=
  match (gym.actionKey.map .ok).getD (keyAt inputs 0) with
  | .error e => (gym, .error e)
  | .ok action =>
    let gym := { gym with actionKey := some action }
    match (gym.observationKey.map .ok).getD (keyAt outputs 0) with
    | .error e => (gym, .error e)
    | .ok observation =>
      let gym := { gym with observationKey := some observation }
      match (gym.rewardKey.map .ok).getD (keyAt outputs 1) with
      | .error e => (gym, .error e)
      | .ok reward =>
        let gym := { gym with rewardKey := some reward }
        match (gym.doneKey.map .ok).getD (keyAt outputs 2) with
        | .error e => (gym, .error e)
        | .ok done =>
          let info := Gym.resolveInfo gym.info [observation, reward, done] outputs
          ({ gym with doneKey := some done, info := info }, .ok ())

/-- The environment with its gym view filled in as far as that goes, and what stopped it. -/
def expand (env : Environment) (module : Module) : Environment × Except Error Unit :=
  if env.useGym then
    match module.roleType Role.externalInputs with
    | .error e => (env, .error e)
    | .ok inputs =>
      match module.roleType Role.externalOutputs with
      | .error e => (env, .error e)
      | .ok outputs =>
        let (gym, result) := fillGym (env.gym.getD .default) inputs outputs
        ({ env with gym := some gym }, result)
  else (env, .ok ())

end Environment

namespace Module

/-- The module with its environment checked and filled in. -/
def prepare (module : Module) : Except Error Module := do
  module.env.check module
  match module.env.expand module with
  | (env, .ok ()) => return { module with env := env }
  | (_, .error e) => throw e

end Module

end ModelBinding
