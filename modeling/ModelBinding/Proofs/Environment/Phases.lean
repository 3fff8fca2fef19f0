import ModelBinding.Proofs.Environment.Roles

/-!
# Checking and filling in

An environment is checked against a module before it is filled in. After the check only the action can
be without a key, which is when it is left open and the inputs have no field. What is filled in passes
the check again and has nothing left to fill in, so a module is prepared once and for all.
-/
namespace ModelBinding

/-! ## Keys after the check -/

theorem exists_roleKey {type : TypeDefinition} {position : Nat} (given : Option String)
    (h : position < type.fields.length) : ∃ key, RoleKey type position given key := by
  cases given with
  | some key => exact ⟨key, .given key⟩
  | none => exact ⟨_, .positional (List.getElem?_eq_getElem h)⟩

namespace Gym

variable {gym : Gym} {inputs outputs : PlacedType}

/-- The action is left open, and there is no field that it could be. -/
def LacksAction (gym : Gym) (inputs : TypeDefinition) : Prop :=
  gym.actionKey = none ∧ inputs.fields = []

theorem exists_action_iff {inputs : TypeDefinition} :
    (∃ key, RoleKey inputs 0 gym.actionKey key) ↔ ¬ gym.LacksAction inputs := by
  constructor
  · rintro ⟨key, hkey⟩ ⟨hopen, hempty⟩
    rw [hopen] at hkey
    cases hkey with
    | positional hfield =>
      rw [hempty] at hfield
      cases hfield
  · intro h
    cases hgiven : gym.actionKey with
    | some key => exact ⟨key, .given key⟩
    | none =>
      have hfields : inputs.fields ≠ [] := fun hempty => h ⟨hgiven, hempty⟩
      exact exists_roleKey none (List.length_pos_iff.2 hfields)

/-- With three outputs there are keys for all roles as soon as there is one for the action. -/
theorem exists_fill_iff {inputs outputs : TypeDefinition} (hleast : leastOutputs ≤ outputs.fields.length) :
    (∃ keys : RoleKeys, keys.Fill gym inputs outputs) ↔ ¬ gym.LacksAction inputs := by
  rw [← exists_action_iff]
  constructor
  · rintro ⟨keys, hfill⟩
    exact ⟨keys.action, hfill.action⟩
  · rintro ⟨action, haction⟩
    have houtput : ∀ position < leastOutputs, ∀ given, ∃ key, RoleKey outputs position given key :=
      fun position hposition given => exists_roleKey given (Nat.lt_of_lt_of_le hposition hleast)
    obtain ⟨observation, hobservation⟩ := houtput 0 (by decide) gym.observationKey
    obtain ⟨reward, hreward⟩ := houtput 1 (by decide) gym.rewardKey
    obtain ⟨done, hdone⟩ := houtput 2 (by decide) gym.doneKey
    obtain ⟨info, hinfo⟩ := exists_reported gym.info [observation, reward, done] outputs
    exact ⟨⟨action, observation, reward, done, info⟩, haction, hobservation, hreward, hdone, hinfo⟩

/-- Without an action the filling stops before it has filled in anything. -/
theorem LacksAction.fillGym_eq (h : gym.LacksAction inputs.definition) :
    Environment.fillGym gym inputs outputs = (gym, .error (.tooFewFields inputs.name 1 0)) := by
  obtain ⟨hopen, hempty⟩ := h
  have hkey : keyAt inputs 0 = .error (.tooFewFields inputs.name 1 0) := by
    rw [keyAt, hempty]
    rfl
  unfold Environment.fillGym
  rw [hopen, Option.map_none, Option.getD_none, hkey]

end Gym

namespace Environment

variable {v : Value} {env : Environment} {module : Module}

/-- What filling in an environment comes down to once it has passed its check. -/
theorem expand_of_check {gym : Gym} {inputs : PlacedType} (hcheck : env.check module = .ok ())
    (huse : env.useGym = true) (hgym : env.gym = some gym)
    (hinputs : module.roleType Role.externalInputs = .ok inputs) :
    ((env.expand module).2 = .ok () ↔ ¬ gym.LacksAction inputs.definition) ∧
    (gym.LacksAction inputs.definition →
      env.expand module = (env, .error (.tooFewFields inputs.name 1 0))) := by
  obtain ⟨inputs', outputs, hinputs', houtputs, hgymCheck⟩ := roles_of_check hcheck huse hgym
  cases hinputs.symm.trans hinputs'
  have hleast := (Gym.check_eq_ok.1 hgymCheck).2.1
  constructor
  · rw [← Gym.exists_fill_iff hleast]
    constructor
    · intro h
      obtain ⟨_, _, hin, hout, keys, hfill, -⟩ := (expand_eq_ok huse).1 (Prod.ext rfl h)
      cases hinputs.symm.trans hin
      cases houtputs.symm.trans hout
      rw [hgym] at hfill
      exact ⟨keys, hfill⟩
    · rintro ⟨keys, hfill⟩
      rw [(expand_eq_ok huse).2
        ⟨inputs, outputs, hinputs, houtputs, keys, by rw [hgym]; exact hfill, rfl⟩]
  · intro hlacks
    unfold expand
    rw [if_pos huse, hinputs, houtputs]
    dsimp only
    rw [hgym, Option.getD_some, hlacks.fillGym_eq]
    dsimp only
    rw [← hgym]

/--
An environment that passes its check is filled in, unless the action is left open and the inputs have
no field: then it stays as it is, and what is reported is that the inputs need a field.
-/
theorem expand_of_check_iff (hread : decode v = .ok env) (hcheck : env.check module = .ok ()) :
    ((env.expand module).2 = .ok () ↔ ∀ gym inputs, env.gym = some gym →
      module.roleType Role.externalInputs = .ok inputs → ¬ gym.LacksAction inputs.definition) ∧
    ∀ gym inputs, env.gym = some gym → module.roleType Role.externalInputs = .ok inputs →
      gym.LacksAction inputs.definition →
      env.expand module = (env, .error (.tooFewFields inputs.name 1 0)) := by
  have hpresent : env.gym.isSome = env.useGym := (of_decode hread).1.gym
  have huse : ∀ gym, env.gym = some gym → env.useGym = true := by
    intro gym hgym
    rw [← hpresent, hgym, Option.isSome_some]
  refine ⟨⟨fun h gym inputs hgym hinputs => ?_, fun h => ?_⟩, fun gym inputs hgym hinputs => ?_⟩
  · exact (expand_of_check hcheck (huse gym hgym) hgym hinputs).1.1 h
  · cases hgym : env.gym with
    | none =>
      rw [hgym] at hpresent
      rw [expand, ← hpresent]
      rfl
    | some gym =>
      obtain ⟨inputs, _, hinputs, -⟩ := roles_of_check hcheck (huse gym hgym) hgym
      exact (expand_of_check hcheck (huse gym hgym) hgym hinputs).1.2 (h gym inputs hgym hinputs)
  · exact (expand_of_check hcheck (huse gym hgym) hgym hinputs).2

end Environment

namespace Pendulum

/-- A drive that nothing can be set in. -/
def stuckDrive : TypeDefinition := ⟨"Drive", "", .root, .fields []⟩

theorem expand_after_check :
    Environment.decode (document .null (.text "energy")) = .ok (module drive watched).env ∧
    (module drive watched).env.check (module drive watched) = .ok () ∧
    ((module drive watched).env.expand (module drive watched)).2 = .ok () ∧
    (module drive watched).env.check (module stuckDrive watched) = .ok () ∧
    (module drive watched).env.expand (module stuckDrive watched) =
      ((module drive watched).env, .error (.tooFewFields "Drive" 1 0)) := by
  refine ⟨decode_watched, rfl, ?_, rfl, ?_⟩
  · refine (Environment.expand_of_check_iff decode_watched rfl).1.2 fun gym inputs _ hinputs => ?_
    cases hinputs
    rintro ⟨-, hempty⟩
    cases hempty
  · exact (Environment.expand_of_check_iff decode_watched rfl).2 watched ⟨0, stuckDrive⟩ rfl rfl
      ⟨rfl, rfl⟩

/-- A pendulum that nothing drives passes the check, and then it has no action. -/
theorem check_stuck_drive :
    Environment.decode (document .null .null) = .ok (module stuckDrive (gym none none)).env ∧
    (module stuckDrive (gym none none)).env.check (module stuckDrive (gym none none)) = .ok () ∧
    ((module stuckDrive (gym none none)).env.expand (module stuckDrive (gym none none))).2 ≠
      .ok () :=
  ⟨rfl, rfl, fun h => nomatch h⟩

end Pendulum

/-! ## Preparing again -/

namespace RoleKeys.Fill

variable {keys : RoleKeys} {gym : Gym}

/-- A gym view that is filled in passes the check that it passed before. -/
theorem check_withKeys {inputs outputs : PlacedType}
    (h : keys.Fill gym inputs.definition outputs.definition)
    (hcheck : gym.check inputs outputs = .ok ()) : (gym.withKeys keys).check inputs outputs = .ok () := by
  obtain ⟨-, hleast, -, -, -, -, haction, hobservation, hreward⟩ := Gym.check_eq_ok.1 hcheck
  have houtput : ∀ use, ∀ key ∈ keys.outputs ++ keys.info, requireKey use key outputs = .ok () :=
    fun use key hkey => requireKey_eq_ok.2
      (TypeDefinition.mem_fieldNames.1 (h.mem_fieldNames hcheck key hkey)).1
  refine Gym.check_eq_ok.2 ⟨requireKey_eq_ok.2 (h.hasMember_action hcheck), hleast,
    houtput "Observation" _ ?_, houtput "Reward" _ ?_, houtput "Done" _ ?_, ?_, haction, hobservation,
    hreward⟩
  · simp [RoleKeys.outputs]
  · simp [RoleKeys.outputs]
  · simp [RoleKeys.outputs]
  · intro ks hks key hkey
    cases hks
    exact houtput "Info" key (List.mem_append_right _ hkey)

end RoleKeys.Fill

/-- Nothing is left to fill in where all keys are given. -/
theorem Gym.fill_withKeys (gym : Gym) (keys : RoleKeys) (inputs outputs : TypeDefinition) :
    keys.Fill (gym.withKeys keys) inputs outputs :=
  ⟨.given _, .given _, .given _, .given _, .given _⟩

namespace Module

variable {module prepared : Module}

/-- The environment of a prepared module passes the check again. -/
theorem check_of_prepare (h : module.prepare = .ok prepared) :
    prepared.env.check prepared = .ok () := by
  have hcheck := (prepare_eq_ok.1 h).1
  rcases prepare_cases h with ⟨-, rfl⟩ | ⟨huse, inputs, outputs, keys, hinputs, houtputs,
    hgymCheck, hfill, rfl⟩
  · exact hcheck
  · rcases Environment.check_eq_ok.1 hcheck with ⟨hunused, -⟩ |
      ⟨_, hin, _, hout, parameters, hparameters, -, hinitializers⟩
    · rw [huse] at hunused
      cases hunused
    · cases hinputs.symm.trans (filledRole_eq_ok.1 hin)
      cases houtputs.symm.trans (filledRole_eq_ok.1 hout)
      refine Environment.check_eq_ok.2 (.inr ⟨inputs, hin, outputs, hout, parameters, hparameters,
        fun filled hactive => ?_, hinitializers⟩)
      cases (Environment.activeGym_eq_some.1 hactive).1
      exact hfill.check_withKeys hgymCheck

/-- The environment of a prepared module has nothing left to fill in. -/
theorem expand_of_prepare (h : module.prepare = .ok prepared) :
    prepared.env.expand prepared = (prepared.env, .ok ()) := by
  rcases prepare_cases h with ⟨huse, rfl⟩ | ⟨huse, inputs, outputs, keys, hinputs, houtputs, -, -,
    rfl⟩
  · exact if_neg (ne_true_of_eq_false huse)
  · have hfilled : Environment.useGym { module.env with
        gym := some ((module.env.gym.getD .default).withKeys keys) } = true := huse
    exact (Environment.expand_eq_ok hfilled).2
      ⟨inputs, outputs, hinputs, houtputs, keys, Gym.fill_withKeys _ _ _ _, rfl⟩

/--
Preparing a prepared module succeeds and changes nothing; so the environment of a context that was
built passes the check again.
-/
theorem prepare_idempotent :
    (∀ module prepared : Module, module.prepare = .ok prepared → prepared.prepare = .ok prepared) ∧
    ∀ metadata settings env sources headers context,
      Context.build metadata settings env sources headers = .ok context →
      context.module.env.check context.module = .ok () ∧
        context.module.prepare = .ok context.module := by
  have hagain : ∀ module prepared : Module, module.prepare = .ok prepared →
      prepared.prepare = .ok prepared := by
    intro module prepared h
    have hexpand := expand_of_prepare h
    exact prepare_eq_ok.2 ⟨check_of_prepare h, by rw [hexpand], by rw [hexpand]⟩
  refine ⟨hagain, fun metadata settings env sources headers context h => ?_⟩
  obtain ⟨_, -, _, -, _, -, -, module, hprepare, rfl⟩ := Context.build_eq_ok.1 h
  exact ⟨check_of_prepare hprepare, hagain _ _ hprepare⟩

end Module

namespace Pendulum

def plainMember (name : String) : MetadataMember :=
  ⟨name, some "plain", false, none, none, none, none⟩

/-- A pendulum that holds a joint by value. -/
def metadata : Metadata where
  name := "pendulum"
  description := ""
  author := ""
  version := ""
  sampleTime := .zero false
  modelClass := ⟨"Pendulum", "", "Pendulum", [], [], .empty,
    ⟨[(Role.externalInputs, "Drive"), (Role.externalOutputs, "Motion"),
      (Role.instanceParameters, "Joint")], by decide⟩⟩
  structs := [
    ⟨"Motion", .root, false, ["angle", "score", "fallen"].map plainMember ++
      [⟨"joint", some "struct", false, none, some "Joint", none, none⟩]⟩,
    ⟨"Joint", .modelClass, false, [plainMember "friction"]⟩,
    ⟨"Drive", .root, false, [plainMember "torque"]⟩]

/-- An environment that wants a gym view, be it there or not. -/
def gymEnv (gym : Option Gym) : Environment :=
  ⟨true, true, false, false, false, gym, .default, .empty⟩

/-- The keys of the gym view where none is given. -/
def positionalKeys : RoleKeys := ⟨"torque", "angle", "score", "fallen", ["joint"]⟩

/-- The member that holds a joint. -/
def joint : Field := ⟨"joint", "", .struct, none, some "Joint", by decide⟩

def context (gym : Option Gym) : Context where
  sources := []
  headers := []
  module := {
    name := "pendulum", doc := "", version := "", author := "", license := ""
    modelClass := {
      name := "Pendulum", doc := "", codeNamespace := "", identifier := "Pendulum"
      sampleTime := .zero false
      methods := [], fields := [], fieldMapping := .empty
      typeMapping := metadata.modelClass.typeMapping }
    types := ⟨"Pendulum", [
      ⟨"Motion", "", .root, .fields (["angle", "score", "fallen"].map .plain ++ [joint])⟩,
      ⟨"Joint", "", .modelClass, .fields [.plain "friction"]⟩, drive], by decide⟩
    env := gymEnv gym }

theorem prepare_context : (context none).module.prepare =
    .ok (context (some (Gym.default.withKeys positionalKeys))).module := rfl

theorem build_context : Context.build metadata (.make "pendulum" "Pendulum" "") (gymEnv none) [] [] =
    .ok (context (some (Gym.default.withKeys positionalKeys))) := rfl

theorem prepare_context_again :
    (context none).module.prepare =
      .ok (context (some (Gym.default.withKeys positionalKeys))).module ∧
    (context (some (Gym.default.withKeys positionalKeys))).module.prepare =
      .ok (context (some (Gym.default.withKeys positionalKeys))).module ∧
    Context.build metadata (.make "pendulum" "Pendulum" "") (gymEnv none) [] [] =
      .ok (context (some (Gym.default.withKeys positionalKeys))) ∧
    (gymEnv (some (Gym.default.withKeys positionalKeys))).check
      (context (some (Gym.default.withKeys positionalKeys))).module = .ok () :=
  ⟨prepare_context, Module.prepare_idempotent.1 _ _ prepare_context, build_context,
    (Module.prepare_idempotent.2 _ _ _ _ _ _ build_context).1⟩

end Pendulum

end ModelBinding
