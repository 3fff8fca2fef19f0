import ModelBinding.Binding.Context
import ModelBinding.Proofs.Json.Finite
import ModelBinding.Proofs.Json.Reread

/-!
# Numbers of a context

Where a context holds numbers, and the context that has other numbers in their places. A scalar that is
an integer or an infinity is not one of them: documents do not hold it as a number with a point.
-/
namespace ModelBinding

variable {f : Binary64 → Binary64}

namespace Scalar

/-- The number of a scalar that is given as one. -/
def float? : Scalar → Option Binary64
  | .float x => some x
  | _ => none

def mapFloats (f : Binary64 → Binary64) : Scalar → Scalar
  | .float x => .float (f x)
  | s => s

theorem mapFloats_eq_self_iff {s : Scalar} : s.mapFloats f = s ↔ ∀ x ∈ s.float?, f x = x := by
  cases s with
  | float x => simp [mapFloats, float?]
  | _ => simp [mapFloats, float?]

theorem forall_mem_floats {scalars : List Scalar} :
    (∀ x ∈ scalars.filterMap float?, f x = x) ↔ ∀ s ∈ scalars, s.mapFloats f = s := by
  simp only [mapFloats_eq_self_iff, List.mem_filterMap, Option.mem_def]
  exact ⟨fun h s hs x hx => h x ⟨s, hs, hx⟩, fun h x ⟨s, hs, hx⟩ => h s hs x hx⟩

/-- What is no number is not read as one, and no number as what is none. -/
theorem isNan_mapFloats_reread (rounding : Rounding) (s : Scalar) :
    (s.mapFloats (Json.reread rounding)).isNan = s.isNan := by
  cases s with
  | float x =>
    cases x with
    | finite negative rank =>
      obtain ⟨rank', hrank'⟩ := Json.exists_reread rounding negative rank
      rw [mapFloats, hrank']
      rfl
    | _ => rfl
  | _ => rfl

theorem isInteger_mapFloats (s : Scalar) : (s.mapFloats f).isInteger = s.isInteger := by
  cases s with
  | _ => rfl

end Scalar

namespace Bound

def mapFloats (f : Binary64 → Binary64) : Bound → Bound
  | .scalar value => .scalar (value.mapFloats f)
  | .each values => .each (values.map (Scalar.mapFloats f))

theorem mapFloats_eq_self_iff {bound : Bound} :
    bound.mapFloats f = bound ↔ ∀ s ∈ bound.scalars, s.mapFloats f = s := by
  cases bound with
  | scalar value => simp [mapFloats, scalars]
  | each values => rw [mapFloats, each.injEq, map_eq_self_iff, scalars]

end Bound

namespace Space

def mapFloats (f : Binary64 → Binary64) : Space → Space
  | .box low high shape type => .box (low.mapFloats f) (high.mapFloats f) shape type
  | space => space

theorem mapFloats_eq_self_iff {space : Space} :
    space.mapFloats f = space ↔ ∀ s ∈ space.scalars, s.mapFloats f = s := by
  cases space with
  | box low high shape type =>
    rw [mapFloats, box.injEq, Bound.mapFloats_eq_self_iff, Bound.mapFloats_eq_self_iff, scalars,
      List.forall_mem_append]
    simp
  | _ => simp [mapFloats, scalars]

end Space

namespace RewardRange

def mapFloats (f : Binary64 → Binary64) (range : RewardRange) : RewardRange :=
  ⟨range.low.mapFloats f, range.high.mapFloats f⟩

end RewardRange

namespace Gym

def mapFloats (f : Binary64 → Binary64) (gym : Gym) : Gym :=
  { gym with
    actionSpace := gym.actionSpace.mapFloats f
    observationSpace := gym.observationSpace.mapFloats f
    rewardRange := gym.rewardRange.mapFloats f }

theorem mapFloats_eq_self_iff {gym : Gym} :
    gym.mapFloats f = gym ↔ ∀ s ∈ gym.scalars, s.mapFloats f = s := by
  have hspaces : gym.mapFloats f = gym ↔ gym.actionSpace.mapFloats f = gym.actionSpace ∧
      gym.observationSpace.mapFloats f = gym.observationSpace ∧
        gym.rewardRange.mapFloats f = gym.rewardRange := by
    rcases gym with ⟨actionKey, observationKey, rewardKey, doneKey, info, action, observation, range, coercion⟩
    simp [mapFloats]
  rw [hspaces, Space.mapFloats_eq_self_iff, Space.mapFloats_eq_self_iff, scalars, List.forall_mem_append,
    List.forall_mem_append, and_assoc]
  rcases gym.rewardRange with ⟨low, high⟩
  simp [RewardRange.mapFloats]

end Gym

namespace Initializer

def mapFloats (f : Binary64 → Binary64) : Initializer → Initializer
  | .constant value => .constant (value.mapFloats f)
  | .uniform low high => .uniform (low.mapFloats f) (high.mapFloats f)
  | init => init

theorem mapFloats_eq_self_iff {init : Initializer} :
    init.mapFloats f = init ↔ ∀ s ∈ init.scalars, s.mapFloats f = s := by
  cases init with
  | constant value => simp [mapFloats, scalars]
  | uniform low high =>
    rw [mapFloats, uniform.injEq, Bound.mapFloats_eq_self_iff, Bound.mapFloats_eq_self_iff, scalars,
      List.forall_mem_append]
  | _ => simp [mapFloats, scalars]

end Initializer

namespace Environment

/-- The numbers of spaces, rewards and initializers. -/
def floats (env : Environment) : List Binary64 := env.scalars.filterMap Scalar.float?

def mapFloats (f : Binary64 → Binary64) (env : Environment) : Environment :=
  { env with
    gym := env.gym.map (Gym.mapFloats f)
    parameter := env.parameter.map (Initializer.mapFloats f) }

theorem mapFloats_eq_self_iff {env : Environment} :
    env.mapFloats f = env ↔ ∀ x ∈ env.floats, f x = x := by
  have hparts : env.mapFloats f = env ↔ env.gym.map (Gym.mapFloats f) = env.gym ∧
      env.parameter.map (Initializer.mapFloats f) = env.parameter := by
    rcases env with ⟨useRaw, useGym, useRng, useVec, vecParallel, gym, reset, parameter⟩
    simp [mapFloats]
  have hgym : env.gym.map (Gym.mapFloats f) = env.gym ↔
      ∀ gym ∈ env.gym.toList, ∀ s ∈ gym.scalars, s.mapFloats f = s := by
    cases env.gym with
    | none => simp
    | some gym => simp [Gym.mapFloats_eq_self_iff]
  rw [hparts, hgym, TextMap.map_eq_self_iff, floats, Scalar.forall_mem_floats, scalars, List.forall_mem_append,
    List.forall_mem_flatMap, List.forall_mem_flatMap]
  exact and_congr_right fun _ => forall₂_congr fun _ _ => Initializer.mapFloats_eq_self_iff

end Environment

namespace ModelClass

def mapFloats (f : Binary64 → Binary64) (model : ModelClass) : ModelClass :=
  { model with sampleTime := f model.sampleTime }

end ModelClass

namespace Module

def mapFloats (f : Binary64 → Binary64) (module : Module) : Module :=
  { module with modelClass := module.modelClass.mapFloats f, env := module.env.mapFloats f }

end Module

namespace Context

/-- The sample time and the numbers of the environment. -/
def floats (context : Context) : List Binary64 :=
  context.module.modelClass.sampleTime :: context.module.env.floats

def mapFloats (f : Binary64 → Binary64) (context : Context) : Context :=
  { context with module := context.module.mapFloats f }

/-- The context with its numbers as they are read where they are written. -/
def reread (rounding : Rounding) (context : Context) : Context := context.mapFloats (Json.reread rounding)

theorem mapFloats_eq_self_iff {context : Context} :
    context.mapFloats f = context ↔ ∀ x ∈ context.floats, f x = x := by
  have hparts : context.mapFloats f = context ↔
      f context.module.modelClass.sampleTime = context.module.modelClass.sampleTime ∧
        context.module.env.mapFloats f = context.module.env := by
    rcases context with ⟨sources, headers, name, doc, version, author, license, model, types, env⟩
    rcases model with ⟨name, doc, codeNamespace, identifier, sampleTime⟩
    simp [mapFloats, Module.mapFloats, ModelClass.mapFloats]
  rw [hparts, Environment.mapFloats_eq_self_iff, floats, List.forall_mem_cons]

/-- A reader that rounds to nearest gives every context back. -/
theorem reread_nearest (context : Context) : context.reread .nearest = context :=
  mapFloats_eq_self_iff.2 fun x _ => Json.reread_nearest x

end Context

end ModelBinding
