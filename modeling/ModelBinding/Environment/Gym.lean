import ModelBinding.Environment.Space

/-!
# The gym view of a model

Which inputs and outputs of the model are the action, the observation, the reward and the end of
an episode, and what else an environment reports. Like the environment around it, a view is a record
whose parts everyone can set; what is wrong with them is found when it is read or checked.
-/
namespace ModelBinding

/-- The bounds of the reward. Neither is an integer where they are read. -/
structure RewardRange where
  low : Scalar
  high : Scalar
deriving DecidableEq

namespace RewardRange

def unbounded : RewardRange := ⟨.infinity true, .infinity false⟩

def ofScalars? : List Scalar → Option RewardRange
  | [low, high] => if low.isInteger || high.isInteger then none else some ⟨low, high⟩
  | _ => none

def toValue (range : RewardRange) : Value := .sequence [range.low.toValue, range.high.toValue]

def decode : Decoder RewardRange :=
  (Decoder.sequence Scalar.decode).refine fun scalars =>
    match ofScalars? scalars with
    | some range => .ok range
    | none => .error "reward_range must be a pair of floats or +/-inf, not ints"

end RewardRange

/-- The outputs that are reported beside observation, reward and end. -/
inductive InfoSelector where
  /-- Every other output, or none. -/
  | all (forward : Bool)
  | keys (keys : List String)
deriving DecidableEq

namespace InfoSelector

def toValue : InfoSelector → Value
  | .all forward => .boolean forward
  | .keys ks => .ofTexts ks

def decode : Decoder InfoSelector := fun v =>
  match Decoder.boolean v with
  | .ok forward => .ok (.all forward)
  | .error _ =>
    match Decoder.sequence .text v with
    | .ok ks => .ok (.keys ks)
    | .error _ => .error (.here (.noAlternative "InfoSelector"))

end InfoSelector

structure Gym where
  actionKey : Option String
  observationKey : Option String
  rewardKey : Option String
  doneKey : Option String
  info : InfoSelector
  actionSpace : Space
  observationSpace : Space
  rewardRange : RewardRange
  typeCoercion : Bool
deriving DecidableEq

namespace Gym

/-- The view of a document that asks for one and says no more. -/
def default : Gym where
  actionKey := none
  observationKey := none
  rewardKey := none
  doneKey := none
  info := .all true
  actionSpace := .default
  observationSpace := .default
  rewardRange := .unbounded
  typeCoercion := true

/-- The reward bounds as two literals. -/
def rewardInitializer (gym : Gym) : Except LiteralError String := do
  let low ← Literal.floating gym.rewardRange.low .float64
  let high ← Literal.floating gym.rewardRange.high .float64
  return low ++ ", " ++ high

/-- The element types of the boxes in use, each once, in increasing order. -/
def boxTypes (gym : Gym) : List String :=
  sortDistinct ([gym.actionSpace, gym.observationSpace].filterMap fun
    | .box _ _ _ type => some type.codeName
    | _ => none)

/-- The scalars of the spaces and of the reward range. -/
def scalars (gym : Gym) : List Scalar :=
  gym.actionSpace.scalars ++ gym.observationSpace.scalars ++
    [gym.rewardRange.low, gym.rewardRange.high]

def toValue (gym : Gym) : Value := .ofEntries [
  ("action_key", .ofText? gym.actionKey),
  ("observation_key", .ofText? gym.observationKey),
  ("reward_key", .ofText? gym.rewardKey),
  ("done_key", .ofText? gym.doneKey),
  ("info", gym.info.toValue),
  ("action_space", gym.actionSpace.toValue),
  ("observation_space", gym.observationSpace.toValue),
  ("reward_range", gym.rewardRange.toValue),
  ("type_coercion", .boolean gym.typeCoercion)]

/-- What a table does not say is as in `default`, except that types are not coerced. -/
def decode : Decoder Gym :=
  .record (mk <$> .optional "action_key" .text <*> .optional "observation_key" .text <*>
    .optional "reward_key" .text <*> .optional "done_key" .text <*>
    .withDefault "info" InfoSelector.decode (.all true) <*>
    .withDefault "action_space" Space.decode .default <*>
    .withDefault "observation_space" Space.decode .default <*>
    .withDefault "reward_range" RewardRange.decode .unbounded <*>
    .withDefault "type_coercion" .boolean false)

end Gym

end ModelBinding
