import ModelBinding.Environment.Gym
import ModelBinding.Environment.Initializer

/-!
# Environments

What a user wants of the environment around a model: its wrappers, the gym view, the reset and
the initial values of parameters. A reset never has the port that does not matter to it. An
environment is a record that everyone can change, part by part: what holds of those that are read is
a property of theirs and not a part of them.
-/
namespace ModelBinding

/--
How an episode is reset. With `firstStep` the observation comes from the first step and only an
input port matters, without it only an output port.
-/
structure Reset where
  firstStep : Bool
  input : Option String
  output : Option String
  alone : (if firstStep then output else input) = none
deriving DecidableEq

namespace Reset

/-- A reset without the port that does not matter. -/
def make (firstStep : Bool) (input output : Option String) : Reset :=
  if firstStep then ⟨true, input, none, rfl⟩ else ⟨false, none, output, rfl⟩

def default : Reset := make true none none

def toValue (reset : Reset) : Value := .ofEntries [
  ("first_step", .boolean reset.firstStep),
  ("input", .ofText? reset.input),
  ("output", .ofText? reset.output)]

def decode : Decoder Reset :=
  .record (make <$> .required "first_step" .boolean <*> .optional "input" .text <*>
    .optional "output" .text)

end Reset

structure Environment where
  useRaw : Bool
  useGym : Bool
  useRng : Bool
  useVec : Bool
  vecParallel : Bool
  gym : Option Gym
  reset : Reset
  /-- Initializers by parameter; a name that starts with `@` is no field and is set by code. -/
  parameter : TextMap Initializer
deriving DecidableEq

namespace Environment

/-- The gym view is there exactly if it is wanted; one that is wanted but not given is filled in. -/
def make (useRaw useGym useRng useVec vecParallel : Bool) (gym : Option Gym)
    (reset : Option Reset) (parameter : TextMap Initializer) : Environment where
  useRaw := useRaw
  useGym := useGym
  useRng := useRng
  useVec := useVec
  vecParallel := vecParallel
  gym := if useGym then some (gym.getD .default) else none
  reset := reset.getD .default
  parameter := parameter

/-- The environment of a new project. -/
def default : Environment := make true true true true false none none .empty

/-- The gym view if it is in use. -/
def activeGym (env : Environment) : Option Gym := env.gym.filter fun _ => env.useGym

/-- The wrappers that are generated. -/
def wrappers (env : Environment) : List String :=
  (if env.useRaw then ["raw"] else []) ++ (if env.useGym then ["gym"] else []) ++
    (if env.useVec then ["vec"] else [])

/-- All scalars of spaces, rewards and initializers. -/
def scalars (env : Environment) : List Scalar :=
  (env.gym.toList.flatMap Gym.scalars) ++ env.parameter.values.flatMap Initializer.scalars

def toValue (env : Environment) : Value := .ofEntries [
  ("use_raw", .boolean env.useRaw),
  ("use_gym", .boolean env.useGym),
  ("use_rng", .boolean env.useRng),
  ("use_vec", .boolean env.useVec),
  ("vec_parallel", .boolean env.vecParallel),
  ("gym", (env.gym.map Gym.toValue).getD .null),
  ("reset", env.reset.toValue),
  ("parameter", .table (env.parameter.entries.map fun (key, init) => (key, init.toValue)))]

def decode : Decoder Environment :=
  .record (make <$> .required "use_raw" .boolean <*> .required "use_gym" .boolean <*>
    .required "use_rng" .boolean <*> .required "use_vec" .boolean <*>
    .required "vec_parallel" .boolean <*> .optional "gym" Gym.decode <*>
    .optional "reset" Reset.decode <*>
    .withDefault "parameter" (.textMap Initializer.decode) .empty)

end Environment

end ModelBinding
