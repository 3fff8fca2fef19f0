import Mathlib.Data.List.ReduceOption
import ModelBinding.Proofs.Context.Built
import ModelBinding.Proofs.Types.Resolution

/-!
# Filling in a gym view

Every role of a gym view has a key: the one that is given, or else the name of the field at the
position of the role. What is filled in is said here as a relation between the gym view, the model and
the keys, and filling in succeeds exactly if there are such keys.
-/
namespace ModelBinding

/-- What is there in a list stands at one place if what is there has no repetition. -/
theorem eq_of_nodup_reduceOption {α : Type} {l : List (Option α)} (h : l.reduceOption.Nodup)
    {i j : Nat} {a : α} (hi : l[i]? = some (some a)) (hj : l[j]? = some (some a)) : i = j := by
  have hpairwise : l.Pairwise fun x y => ∀ b, x = some b → ∀ c, y = some c → b ≠ c :=
    List.pairwise_filterMap.1 h
  obtain ⟨hlti, hai⟩ := List.getElem?_eq_some_iff.1 hi
  obtain ⟨hltj, haj⟩ := List.getElem?_eq_some_iff.1 hj
  rcases Nat.lt_trichotomy i j with hlt | heq | hlt
  · exact absurd rfl (List.pairwise_iff_getElem.1 hpairwise i j hlti hltj hlt a hai a haj)
  · exact heq
  · exact absurd rfl (List.pairwise_iff_getElem.1 hpairwise j i hltj hlti hlt a haj a hai)

/-! ## The keys of the roles -/

/-- The key of a role: one that is given stays, an open one is the name of the field at a position. -/
inductive RoleKey (type : TypeDefinition) (position : Nat) : Option String → String → Prop
  | given (key : String) : RoleKey type position (some key) key
  | positional {field : Field} (h : type.fields[position]? = some field) :
      RoleKey type position none field.name

/--
What is reported beside the outputs in use: a list that is given stays, else it is nothing or every
other output, in order of declaration.
-/
inductive Reported (outputs : TypeDefinition) (used : List String) :
    InfoSelector → List String → Prop
  | given (keys : List String) : Reported outputs used (.keys keys) keys
  | nothing : Reported outputs used (.all false) []
  | others : Reported outputs used (.all true) (outputs.fieldNames.filter (· ∉ used))

/-- The keys of a gym view none of whose roles is open. -/
structure RoleKeys where
  action : String
  observation : String
  reward : String
  done : String
  info : List String

namespace RoleKeys

/-- The outputs that play a role, by the position of the role. -/
def outputs (keys : RoleKeys) : List String := [keys.observation, keys.reward, keys.done]

/-- Whether these are the keys of a gym view of a model with these inputs and outputs. -/
structure Fill (keys : RoleKeys) (gym : Gym) (inputs outputs : TypeDefinition) : Prop where
  action : RoleKey inputs 0 gym.actionKey keys.action
  observation : RoleKey outputs 0 gym.observationKey keys.observation
  reward : RoleKey outputs 1 gym.rewardKey keys.reward
  done : RoleKey outputs 2 gym.doneKey keys.done
  info : Reported outputs keys.outputs gym.info keys.info

end RoleKeys

namespace Gym

/-- The keys that are given to the roles of outputs, by the position of the role. -/
def outputKeys (gym : Gym) : List (Option String) :=
  [gym.observationKey, gym.rewardKey, gym.doneKey]

/-- The gym view with these keys; spaces, rewards and coercion stay. -/
def withKeys (gym : Gym) (keys : RoleKeys) : Gym where
  actionKey := some keys.action
  observationKey := some keys.observation
  rewardKey := some keys.reward
  doneKey := some keys.done
  info := .keys keys.info
  actionSpace := gym.actionSpace
  observationSpace := gym.observationSpace
  rewardRange := gym.rewardRange
  typeCoercion := gym.typeCoercion

end Gym

theorem requireKey_eq_ok {use key : String} {type : PlacedType} :
    requireKey use key type = .ok () ↔ type.definition.hasMember key = true := by
  unfold requireKey
  split_ifs with hmember
  · simp [hmember]
  · simp [hmember]

theorem roleKey_iff {type : PlacedType} {position : Nat} {given : Option String} {key : String} :
    (given.map .ok).getD (keyAt type position) = .ok key ↔
      RoleKey type.definition position given key := by
  cases given with
  | some other =>
    constructor
    · intro h
      cases h
      exact .given key
    · rintro ⟨⟩
      rfl
  | none =>
    rw [Option.map_none, Option.getD_none, keyAt]
    constructor
    · intro h
      split at h
      · rename_i field hfield
        cases h
        exact .positional hfield
      · cases h
    · rintro (_ | hfield)
      rw [hfield]

/-- A key that passes the check for a role is a member of the type. -/
theorem RoleKey.hasMember {type : PlacedType} {position : Nat} {given : Option String} {key : String}
    {use : String} (h : RoleKey type.definition position given key)
    (hcheck : requireKey? use given type = .ok ()) : type.definition.hasMember key = true := by
  cases h with
  | given => exact requireKey_eq_ok.1 hcheck
  | positional hfield =>
    exact (TypeDefinition.mem_fieldNames.1 (List.mem_map_of_mem (List.mem_of_getElem? hfield))).1

theorem RoleKey.or_eq_some {type : TypeDefinition} {position : Nat} {given : Option String}
    {key : String} (h : RoleKey type position given key) :
    given.or type.fieldNames[position]? = some key := by
  cases h with
  | given => rfl
  | positional hfield => simp [TypeDefinition.fieldNames, hfield]

theorem resolveInfo_of_reported {info : InfoSelector} {used keys : List String}
    {outputs : PlacedType} (h : Reported outputs.definition used info keys) :
    Gym.resolveInfo info used outputs = .keys keys := by
  cases h with
  | given => rfl
  | nothing => rfl
  | others => simp [Gym.resolveInfo, TypeDefinition.fieldNames]

theorem exists_reported (info : InfoSelector) (used : List String) (outputs : TypeDefinition) :
    ∃ keys, Reported outputs used info keys := by
  cases info with
  | keys ks => exact ⟨ks, .given ks⟩
  | all forward =>
    cases forward with
    | false => exact ⟨[], .nothing⟩
    | true => exact ⟨_, .others⟩

theorem Reported.mem_fieldNames {outputs : TypeDefinition} {used keys : List String}
    {info : InfoSelector} (h : Reported outputs used info keys)
    (hgiven : ∀ ks, info = .keys ks → ∀ key ∈ ks, key ∈ outputs.fieldNames) :
    ∀ key ∈ keys, key ∈ outputs.fieldNames := by
  cases h with
  | given => exact hgiven keys rfl
  | nothing => exact List.forall_mem_nil _
  | others => exact fun key hkey => (List.mem_filter.1 hkey).1

/-- If every other output is reported, an output either plays a role or is reported. -/
theorem Reported.xor_of_others {outputs : TypeDefinition} {used keys : List String} {name : String}
    (h : Reported outputs used (.all true) keys) (hname : name ∈ outputs.fieldNames) :
    Xor (name ∈ used) (name ∈ keys) := by
  cases h
  by_cases hused : name ∈ used
  · simp [Xor, hused]
  · simp [Xor, hused, hname]

/-- Filling in succeeds exactly if every role has a key, and gives the gym view with these keys. -/
theorem Environment.fillGym_eq_ok {gym filled : Gym} {inputs outputs : PlacedType} :
    fillGym gym inputs outputs = (filled, .ok ()) ↔
      ∃ keys : RoleKeys, keys.Fill gym inputs.definition outputs.definition ∧
        gym.withKeys keys = filled := by
  constructor
  · intro h
    -- A role without a key stops the filling, so each of them has one.
    unfold fillGym at h
    split at h
    · cases h
    rename_i action haction
    dsimp only at h
    split at h
    · cases h
    rename_i observation hobservation
    split at h
    · cases h
    rename_i reward hreward
    split at h
    · cases h
    rename_i done hdone
    obtain ⟨info, hinfo⟩ :=
      exists_reported gym.info [observation, reward, done] outputs.definition
    rw [resolveInfo_of_reported hinfo] at h
    cases h
    exact ⟨⟨action, observation, reward, done, info⟩, ⟨roleKey_iff.1 haction,
      roleKey_iff.1 hobservation, roleKey_iff.1 hreward, roleKey_iff.1 hdone, hinfo⟩, rfl⟩
  · rintro ⟨keys, hfill, rfl⟩
    have hinfo : Gym.resolveInfo gym.info keys.outputs outputs = .keys keys.info :=
      resolveInfo_of_reported hfill.info
    unfold fillGym
    rw [roleKey_iff.2 hfill.action]
    dsimp only
    rw [roleKey_iff.2 hfill.observation]
    dsimp only
    rw [roleKey_iff.2 hfill.reward]
    dsimp only
    rw [roleKey_iff.2 hfill.done]
    dsimp only
    rw [← RoleKeys.outputs, hinfo]
    rfl

/-! ## Preparing a module with a gym view -/

/-- The message for a role that nothing plays has no say in which type plays it. -/
theorem Module.filledRole_eq_ok {module : Module} {role message : String} {type : PlacedType} :
    module.filledRole role message = .ok type ↔ module.roleType role = .ok type := by
  unfold roleType filledRole
  cases module.modelClass.typeForRole? role with
  | none => exact iff_of_false (fun h => nomatch h) (fun h => nomatch h)
  | some name => exact Iff.rfl

namespace Environment

variable {env filled : Environment} {module : Module}

theorem expand_eq_ok (huse : env.useGym = true) : env.expand module = (filled, .ok ()) ↔
    ∃ inputs outputs, module.roleType Role.externalInputs = .ok inputs ∧
      module.roleType Role.externalOutputs = .ok outputs ∧ ∃ keys : RoleKeys,
      keys.Fill (env.gym.getD .default) inputs.definition outputs.definition ∧
      { env with gym := some ((env.gym.getD .default).withKeys keys) } = filled := by
  unfold expand
  rw [if_pos huse]
  cases module.roleType Role.externalInputs with
  | error e => simp
  | ok inputs =>
    cases module.roleType Role.externalOutputs with
    | error e => simp
    | ok outputs =>
      simp only [Except.ok.injEq, exists_eq_left', exists_and_left]
      constructor
      · intro h
        rcases hfill : fillGym (env.gym.getD .default) inputs outputs with ⟨gym, result⟩
        rw [hfill] at h
        cases h
        obtain ⟨keys, hkeys, rfl⟩ := fillGym_eq_ok.1 hfill
        exact ⟨keys, hkeys, rfl⟩
      · rintro ⟨keys, hkeys, rfl⟩
        rw [fillGym_eq_ok.2 ⟨keys, hkeys, rfl⟩]

/-- What the check of an environment with a gym view says about the model. -/
theorem roles_of_check {gym : Gym} (h : env.check module = .ok ()) (huse : env.useGym = true)
    (hgym : env.gym = some gym) : ∃ inputs outputs,
      module.roleType Role.externalInputs = .ok inputs ∧
      module.roleType Role.externalOutputs = .ok outputs ∧ gym.check inputs outputs = .ok () := by
  obtain ⟨inputs, hinputs, outputs, houtputs, hcheck⟩ :=
    check_activeGym h (activeGym_eq_some.2 ⟨hgym, huse⟩)
  exact ⟨inputs, outputs, Module.filledRole_eq_ok.1 hinputs, Module.filledRole_eq_ok.1 houtputs,
    hcheck⟩

theorem check_gym {gym : Gym} {inputs outputs : PlacedType} (h : env.check module = .ok ())
    (huse : env.useGym = true) (hgym : env.gym = some gym)
    (hinputs : module.roleType Role.externalInputs = .ok inputs)
    (houtputs : module.roleType Role.externalOutputs = .ok outputs) :
    gym.check inputs outputs = .ok () := by
  obtain ⟨_, _, hin, hout, hcheck⟩ := roles_of_check h huse hgym
  cases hinputs.symm.trans hin
  cases houtputs.symm.trans hout
  exact hcheck

end Environment

/-- The gym view of a document that says nothing about it goes with any three outputs. -/
theorem Gym.check_default {inputs outputs : PlacedType}
    (h : leastOutputs ≤ outputs.definition.fields.length) :
    Gym.default.check inputs outputs = .ok () :=
  check_eq_ok.2 ⟨rfl, h, rfl, rfl, rfl, (fun _ hks => nomatch hks), Space.check_default _,
    Space.check_default _, _, rfl⟩

/--
What preparing a module does: without a gym view nothing, and otherwise it fills in the keys of the view
that is there, or of the default one. Either of them goes with the model.
-/
theorem Module.prepare_cases {module prepared : Module} (h : module.prepare = .ok prepared) :
    (module.env.useGym = false ∧ module = prepared) ∨
    (module.env.useGym = true ∧ ∃ inputs outputs keys,
      module.roleType Role.externalInputs = .ok inputs ∧
      module.roleType Role.externalOutputs = .ok outputs ∧
      (module.env.gym.getD .default).check inputs outputs = .ok () ∧
      RoleKeys.Fill keys (module.env.gym.getD .default) inputs.definition outputs.definition ∧
      { module with env := { module.env with
        gym := some ((module.env.gym.getD .default).withKeys keys) } } = prepared) := by
  obtain ⟨hcheck, hexpand, rfl⟩ := prepare_eq_ok.1 h
  by_cases huse : module.env.useGym = true
  · obtain ⟨inputs, outputs, hinputs, houtputs, keys, hfill, heq⟩ :=
      (Environment.expand_eq_ok huse).1 (Prod.ext rfl hexpand)
    refine .inr ⟨huse, inputs, outputs, keys, hinputs, houtputs, ?_, hfill, by rw [heq]⟩
    cases hgym : module.env.gym with
    | some gym => exact Environment.check_gym hcheck huse hgym hinputs houtputs
    | none =>
      -- The check did not see the default view, but its end of an episode is the third output.
      rw [hgym] at hfill
      have hdone : outputs.definition.fieldNames[2]? = some keys.done := hfill.done.or_eq_some
      obtain ⟨hleast, -⟩ := List.getElem?_eq_some_iff.1 hdone
      rw [TypeDefinition.fieldNames, List.length_map] at hleast
      exact Gym.check_default hleast
  · refine .inl ⟨eq_false_of_ne_true huse, ?_⟩
    rw [Environment.expand, if_neg huse]

/-- What preparing a module with a gym view gives. -/
theorem Module.prepare_of_gym {module prepared : Module} {gym : Gym}
    (huse : module.env.useGym = true) (hgym : module.env.gym = some gym)
    (h : module.prepare = .ok prepared) : ∃ inputs outputs keys,
      module.roleType Role.externalInputs = .ok inputs ∧
      module.roleType Role.externalOutputs = .ok outputs ∧ gym.check inputs outputs = .ok () ∧
      RoleKeys.Fill keys gym inputs.definition outputs.definition ∧
      { module with env := { module.env with gym := some (gym.withKeys keys) } } = prepared := by
  rcases prepare_cases h with ⟨hunused, -⟩ | ⟨-, hfilled⟩
  · rw [huse] at hunused
    cases hunused
  · rw [hgym, Option.getD_some] at hfilled
    exact hfilled

namespace RoleKeys.Fill

variable {keys : RoleKeys} {gym : Gym} {inputs outputs : PlacedType}

theorem hasMember_action (h : keys.Fill gym inputs.definition outputs.definition)
    (hcheck : gym.check inputs outputs = .ok ()) :
    inputs.definition.hasMember keys.action = true :=
  h.action.hasMember (Gym.check_eq_ok.1 hcheck).1

/-- Since outputs have to be three fields at least, they are no enum, and their members are fields. -/
theorem mem_fieldNames (h : keys.Fill gym inputs.definition outputs.definition)
    (hcheck : gym.check inputs outputs = .ok ()) :
    ∀ key ∈ keys.outputs ++ keys.info, key ∈ outputs.definition.fieldNames := by
  obtain ⟨-, hleast, hobservation, hreward, hdone, hinfo, -⟩ := Gym.check_eq_ok.1 hcheck
  have hfield : ∀ key, outputs.definition.hasMember key = true →
      key ∈ outputs.definition.fieldNames := fun key hkey =>
    TypeDefinition.mem_fieldNames.2
      ⟨hkey, TypeDefinition.isEnum_of_length_pos (Nat.lt_of_lt_of_le (by decide) hleast)⟩
  refine List.forall_mem_append.2 ⟨?_, ?_⟩
  · rw [RoleKeys.outputs, List.forall_mem_cons, List.forall_mem_cons, List.forall_mem_singleton]
    exact ⟨hfield _ (h.observation.hasMember hobservation),
      hfield _ (h.reward.hasMember hreward), hfield _ (h.done.hasMember hdone)⟩
  · refine h.info.mem_fieldNames fun ks hks key hkey => hfield key ?_
    exact requireKey_eq_ok.1 (hinfo ks hks key hkey)

theorem getElem?_outputs {inputs outputs : TypeDefinition} (h : keys.Fill gym inputs outputs)
    (i : Nat) : keys.outputs[i]? = gym.outputKeys[i]?.bind (·.or outputs.fieldNames[i]?) := by
  match i with
  | 0 => exact h.observation.or_eq_some.symm
  | 1 => exact h.reward.or_eq_some.symm
  | 2 => exact h.done.or_eq_some.symm
  | i + 3 => rfl

/--
Where the outputs have distinct names and so have the given keys, two roles share an output exactly if
a key that is given to one is the name of the output at the position of an open one.
-/
theorem nodup_outputs_iff {inputs outputs : TypeDefinition} (h : keys.Fill gym inputs outputs)
    (hnames : outputs.fieldNames.Nodup) (hgiven : gym.outputKeys.reduceOption.Nodup) :
    keys.outputs.Nodup ↔ ∀ (i j : Nat) (key : String), gym.outputKeys[i]? = some (some key) →
      gym.outputKeys[j]? = some none → outputs.fieldNames[j]? ≠ some key := by
  constructor
  · intro hnodup i j key hi hj hname
    have hkeyi : keys.outputs[i]? = some key := by rw [h.getElem?_outputs, hi]; rfl
    have hkeyj : keys.outputs[j]? = some key := by rw [h.getElem?_outputs, hj, ← hname]; rfl
    have hij : i = j := nodup_iff_getElem?.1 hnodup i j key hkeyi hkeyj
    rw [hij, hj] at hi
    cases hi
  · intro hfree
    -- A key that two roles have is given to both, given to one of them, or the name at two positions.
    refine nodup_iff_getElem?.2 fun i j key hkeyi hkeyj => ?_
    rw [h.getElem?_outputs, Option.bind_eq_some_iff] at hkeyi hkeyj
    obtain ⟨giveni, hi, hgiveni⟩ := hkeyi
    obtain ⟨givenj, hj, hgivenj⟩ := hkeyj
    rcases Option.or_eq_some_iff.1 hgiveni with rfl | ⟨rfl, hnamei⟩
    · rcases Option.or_eq_some_iff.1 hgivenj with rfl | ⟨rfl, hnamej⟩
      · exact eq_of_nodup_reduceOption hgiven hi hj
      · exact absurd hnamej (hfree i j key hi hj)
    · rcases Option.or_eq_some_iff.1 hgivenj with rfl | ⟨rfl, hnamej⟩
      · exact absurd hnamei (hfree j i key hj hi)
      · exact nodup_iff_getElem?.1 hnames i j key hnamei hnamej

end RoleKeys.Fill

/-- An environment that a document gives has its gym view if it wants one. -/
theorem Environment.exists_gym_of_decode {v : Value} {env : Environment}
    (h : decode v = .ok env) (huse : env.useGym = true) : ∃ gym, env.gym = some gym := by
  rw [← Option.isSome_iff_exists, (of_decode h).1.gym, huse]

end ModelBinding
