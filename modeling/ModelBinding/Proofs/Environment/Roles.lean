import ModelBinding.Proofs.Environment.Filling

/-!
# The roles of a prepared module

The keys of outputs in the gym view of a prepared module are outputs of the model. Two of them can
be the same, since a key may be given to one role and stand at the position of another, and the action
can be an enumerator, since the type of the inputs may be an enum.
-/
namespace ModelBinding

/-! ## A pendulum -/

namespace Pendulum

def drive : TypeDefinition := ⟨"Drive", "", .root, .fields [.plain "torque"]⟩

/-- A drive that is no struct. -/
def driveState : TypeDefinition := ⟨"Drive", "", .root, .enumerators [⟨"idle", "", 0⟩]⟩

def motion : TypeDefinition :=
  ⟨"Motion", "", .root, .fields (["angle", "score", "fallen", "energy"].map .plain)⟩

def module (drive : TypeDefinition) (gym : Gym)
    (distinct : ([drive, motion].map (TypeTable.identityOf "Pendulum")).Nodup := by decide) :
    Module where
  name := "Pendulum"
  doc := ""
  version := ""
  author := ""
  license := ""
  modelClass := {
    name := "Pendulum", doc := "", codeNamespace := "", identifier := "Pendulum"
    sampleTime := .zero false
    methods := [], fields := [], fieldMapping := .empty
    typeMapping := ⟨[(Role.externalInputs, "Drive"), (Role.externalOutputs, "Motion"),
      (Role.instanceParameters, "Motion")], by decide⟩ }
  types := ⟨"Pendulum", [drive, motion], distinct⟩
  env := ⟨false, true, false, false, false, some gym, .default, .empty⟩

/-- The document of an environment with a gym view to which two keys can be given. -/
def document (action observation : Value) : Value := .table [
  ("gym", .table [
    ("action_key", action),
    ("action_space", .table [("n", .integer 3), ("type", .text "Discrete")]),
    ("observation_key", observation),
    ("observation_space", .table [("n", .integer 8), ("type", .text "MultiBinary")])]),
  ("use_gym", .boolean true), ("use_raw", .boolean false), ("use_rng", .boolean false),
  ("use_vec", .boolean false), ("vec_parallel", .boolean false)]

def gym (action observation : Option String) : Gym where
  actionKey := action
  observationKey := observation
  rewardKey := none
  doneKey := none
  info := .all true
  actionSpace := .discrete 3
  observationSpace := .multiBinary 8
  rewardRange := .unbounded
  typeCoercion := false

/-- The view in which the energy is observed. -/
def watched : Gym := gym none (some "energy")

def watchedKeys : RoleKeys := ⟨"torque", "energy", "score", "fallen", ["angle"]⟩

theorem decode_watched : Environment.decode (document .null (.text "energy")) =
    .ok (module drive watched).env := rfl

theorem prepare_watched :
    (module drive watched).prepare = .ok (module drive (watched.withKeys watchedKeys)) := rfl

end Pendulum

/-! ## Filling in the gym view -/

namespace Module

variable {v : Value} {module prepared : Module}

/--
Preparing a module fills in its gym view and changes nothing else: keys that are given stay, open ones
go by position, and all keys of outputs are fields. If every other output is to be reported, each
output either plays a role or is reported.
-/
theorem prepare_fills_gym (hread : Environment.decode v = .ok module.env)
    (huse : module.env.useGym = true) (h : module.prepare = .ok prepared) :
    ∃ gym inputs outputs keys, module.env.gym = some gym ∧
      module.roleType Role.externalInputs = .ok inputs ∧
      module.roleType Role.externalOutputs = .ok outputs ∧
      RoleKeys.Fill keys gym inputs.definition outputs.definition ∧
      (∀ key ∈ keys.outputs ++ keys.info, (outputs.definition.field? key).isSome) ∧
      (gym.info = .all true → ∀ name ∈ outputs.definition.fieldNames,
        Xor (name ∈ keys.outputs) (name ∈ keys.info)) ∧
      prepared = { module with env := { module.env with gym := some (gym.withKeys keys) } } := by
  obtain ⟨gym, hgym⟩ := Environment.exists_gym_of_decode hread huse
  obtain ⟨inputs, outputs, keys, hinputs, houtputs, hcheck, hfill, rfl⟩ :=
    prepare_of_gym huse hgym h
  refine ⟨gym, inputs, outputs, keys, hgym, hinputs, houtputs, hfill, fun key hkey => ?_,
    fun hothers name hname => ?_, rfl⟩
  · exact TypeDefinition.isSome_field?.2 (hfill.mem_fieldNames hcheck key hkey)
  · have hinfo := hfill.info
    rw [hothers] at hinfo
    exact hinfo.xor_of_others hname

theorem pendulum_prepare_fills_gym :
    Environment.decode (Pendulum.document .null (.text "energy")) =
      .ok (Pendulum.module Pendulum.drive Pendulum.watched).env ∧
    (Pendulum.module Pendulum.drive Pendulum.watched).prepare =
      .ok (Pendulum.module Pendulum.drive (Pendulum.watched.withKeys Pendulum.watchedKeys)) ∧
    ∃ keys, RoleKeys.Fill keys Pendulum.watched Pendulum.drive Pendulum.motion ∧
      (∀ key ∈ keys.outputs ++ keys.info, (Pendulum.motion.field? key).isSome) ∧
      (∀ name ∈ Pendulum.motion.fieldNames, Xor (name ∈ keys.outputs) (name ∈ keys.info)) ∧
      Pendulum.watched.withKeys Pendulum.watchedKeys = Pendulum.watched.withKeys keys := by
  obtain ⟨gym, inputs, outputs, keys, hgym, hinputs, houtputs, hfill, hfields, hothers, hframe⟩ :=
    prepare_fills_gym Pendulum.decode_watched rfl Pendulum.prepare_watched
  cases hgym
  cases hinputs
  cases houtputs
  refine ⟨Pendulum.decode_watched, Pendulum.prepare_watched, keys, hfill, hfields, hothers rfl, ?_⟩
  exact Option.some.inj (congrArg (·.env.gym) hframe)

/--
Where the outputs have distinct names and so have the given keys, preparing a module leaves observation,
reward and end with outputs of their own exactly if no key that is given to one of them is the name of
the output at the position of an open one.
-/
theorem prepare_separate_outputs_iff (hread : Environment.decode v = .ok module.env)
    (huse : module.env.useGym = true) (h : module.prepare = .ok prepared) :
    ∃ gym outputs keys, module.env.gym = some gym ∧
      module.roleType Role.externalOutputs = .ok outputs ∧
      prepared.env.gym = some (gym.withKeys keys) ∧
      (outputs.definition.fieldNames.Nodup → gym.outputKeys.reduceOption.Nodup →
        (keys.outputs.Nodup ↔ ∀ (i j : Nat) (key : String), gym.outputKeys[i]? = some (some key) →
          gym.outputKeys[j]? = some none → outputs.definition.fieldNames[j]? ≠ some key)) := by
  obtain ⟨gym, hgym⟩ := Environment.exists_gym_of_decode hread huse
  obtain ⟨inputs, outputs, keys, -, houtputs, -, hfill, rfl⟩ := prepare_of_gym huse hgym h
  exact ⟨gym, outputs, keys, hgym, houtputs, rfl, hfill.nodup_outputs_iff⟩

theorem pendulum_prepare_separate_outputs :
    Environment.decode (Pendulum.document .null (.text "energy")) =
      .ok (Pendulum.module Pendulum.drive Pendulum.watched).env ∧
    (Pendulum.module Pendulum.drive Pendulum.watched).prepare =
      .ok (Pendulum.module Pendulum.drive (Pendulum.watched.withKeys Pendulum.watchedKeys)) ∧
    ∃ keys, Pendulum.watched.withKeys Pendulum.watchedKeys = Pendulum.watched.withKeys keys ∧
      (keys.outputs.Nodup ↔ ∀ (i j : Nat) (key : String),
        Pendulum.watched.outputKeys[i]? = some (some key) →
        Pendulum.watched.outputKeys[j]? = some none → Pendulum.motion.fieldNames[j]? ≠ some key) := by
  obtain ⟨gym, outputs, keys, hgym, houtputs, hfilled, hseparate⟩ :=
    prepare_separate_outputs_iff Pendulum.decode_watched rfl Pendulum.prepare_watched
  cases hgym
  cases houtputs
  exact ⟨Pendulum.decode_watched, Pendulum.prepare_watched, keys, Option.some.inj hfilled,
    hseparate (by decide) (by decide)⟩

/-- An observation at the position of the reward is the reward too. -/
theorem pendulum_shared_output :
    Environment.decode (Pendulum.document .null (.text "score")) =
      .ok (Pendulum.module Pendulum.drive (Pendulum.gym none (some "score"))).env ∧
    Pendulum.motion.fieldNames.Nodup ∧
    (Pendulum.gym none (some "score")).outputKeys.reduceOption.Nodup ∧
    ∃ keys, (Pendulum.module Pendulum.drive (Pendulum.gym none (some "score"))).prepare =
        .ok (Pendulum.module Pendulum.drive ((Pendulum.gym none (some "score")).withKeys keys)) ∧
      keys.observation = keys.reward :=
  ⟨rfl, by decide, by decide, ⟨"torque", "score", "score", "fallen", ["angle", "energy"]⟩, rfl, rfl⟩

/--
The action of a prepared module is a member of the type of the inputs, and it is a field exactly if
that type is no enum.
-/
theorem prepare_action_field_iff (hread : Environment.decode v = .ok module.env)
    (huse : module.env.useGym = true) (h : module.prepare = .ok prepared) :
    ∃ gym inputs action, prepared.env.gym = some gym ∧ gym.actionKey = some action ∧
      module.roleType Role.externalInputs = .ok inputs ∧
      inputs.definition.hasMember action = true ∧
      ((inputs.definition.field? action).isSome ↔ inputs.definition.isEnum = false) := by
  obtain ⟨gym, hgym⟩ := Environment.exists_gym_of_decode hread huse
  obtain ⟨inputs, outputs, keys, hinputs, -, hcheck, hfill, rfl⟩ := prepare_of_gym huse hgym h
  have hmember := hfill.hasMember_action hcheck
  refine ⟨gym.withKeys keys, inputs, keys.action, rfl, rfl, hinputs, hmember, ?_⟩
  rw [TypeDefinition.isSome_field?, TypeDefinition.mem_fieldNames, and_iff_right hmember]

theorem pendulum_prepare_action_field :
    Environment.decode (Pendulum.document .null (.text "energy")) =
      .ok (Pendulum.module Pendulum.drive Pendulum.watched).env ∧
    (Pendulum.module Pendulum.drive Pendulum.watched).prepare =
      .ok (Pendulum.module Pendulum.drive (Pendulum.watched.withKeys Pendulum.watchedKeys)) ∧
    ∃ gym action, some (Pendulum.watched.withKeys Pendulum.watchedKeys) = some gym ∧
      gym.actionKey = some action ∧ Pendulum.drive.hasMember action = true ∧
      ((Pendulum.drive.field? action).isSome ↔ Pendulum.drive.isEnum = false) := by
  obtain ⟨gym, inputs, action, hgym, haction, hinputs, hmember, hfield⟩ :=
    prepare_action_field_iff Pendulum.decode_watched rfl Pendulum.prepare_watched
  cases hinputs
  exact ⟨Pendulum.decode_watched, Pendulum.prepare_watched, gym, action, hgym, haction, hmember, hfield⟩

/-- Where the drive is an enum, an enumerator is taken for the action. -/
theorem pendulum_action_enumerator :
    Environment.decode (Pendulum.document (.text "idle") .null) =
      .ok (Pendulum.module Pendulum.driveState (Pendulum.gym (some "idle") none)).env ∧
    ∃ keys, (Pendulum.module Pendulum.driveState (Pendulum.gym (some "idle") none)).prepare =
        .ok (Pendulum.module Pendulum.driveState
          ((Pendulum.gym (some "idle") none).withKeys keys)) ∧
      (Pendulum.module Pendulum.driveState (Pendulum.gym (some "idle") none)).roleType
        Role.externalInputs = .ok ⟨0, Pendulum.driveState⟩ ∧
      Pendulum.driveState.field? keys.action = none :=
  ⟨rfl, ⟨"idle", "angle", "score", "fallen", ["energy"]⟩, rfl, rfl, rfl⟩

end Module

end ModelBinding
