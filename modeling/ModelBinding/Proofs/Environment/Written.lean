import ModelBinding.Proofs.Environment.Reachable
import ModelBinding.Proofs.Toml.Documents

/-!
# Environments in TOML

An environment that reading gives is written in TOML unless one of its integers is above the signed range,
and it is read back as it was: with its infinities, without what is absent, and with the parameters under
their names, whatever these are.
-/
namespace ModelBinding

open Toml (Regular Nests Unwritable)

variable {depth : Nat}

namespace Scalar

/-- The integer that a scalar is given as. -/
def integer? : Scalar → Option Int
  | .int i => some i.toInt
  | .uint n => some n.toNat
  | _ => none

/-- The scalar is given as an integer above the signed range. -/
def Exceeds (s : Scalar) : Prop := ∃ i, s.integer? = some i ∧ Int64.maxValue.toInt < i

theorem saidIn_toml {s : Scalar} (h : s.Canonical) : s.SaidIn .toml := ⟨h, fun _ _ => trivial⟩

theorem nests (s : Scalar) : Nests depth s.toValue := by
  cases s with
  | _ => trivial

theorem regular (s : Scalar) : Regular depth s.toValue := by
  cases s with
  | _ => trivial

theorem inline_eq_none {s : Scalar} (h : s.Canonical) : Toml.inline s.toValue = none ↔ s.Exceeds := by
  have hmax : Int64.maxValue.toInt = 0x7fffffffffffffff := by decide
  cases s with
  | int i =>
    have hlt := i.toInt_lt
    refine iff_of_false (fun h => nomatch h) ?_
    rintro ⟨_, hi, hlarge⟩
    cases hi
    omega
  | uint n =>
    refine iff_of_true rfl ⟨_, rfl, ?_⟩
    have hlarge : 0x8000000000000000 ≤ n.toNat := h
    omega
  | float x =>
    refine iff_of_false (fun h => nomatch h) ?_
    rintro ⟨_, hi, -⟩
    cases hi
  | infinity negative =>
    refine iff_of_false (fun h => nomatch h) ?_
    rintro ⟨_, hi, -⟩
    cases hi

theorem unwritable_iff {s : Scalar} (h : s.Canonical) : Unwritable s.toValue ↔ s.Exceeds := by
  rw [← inline_eq_none h]
  cases s with
  | _ => exact .rfl

theorem unwritable_sequence {scalars : List Scalar} (h : ∀ s ∈ scalars, s.Canonical) :
    Unwritable (.sequence (scalars.map toValue)) ↔ ∃ s ∈ scalars, s.Exceeds := by
  rw [Toml.unwritable_sequence_map]
  exact exists_congr fun s => and_congr_right fun hs => inline_eq_none (h s hs)

theorem regular_sequence (scalars : List Scalar) : Regular depth (.sequence (scalars.map toValue)) :=
  Toml.regular_sequence_map fun s _ => s.nests

end Scalar

namespace Bound

theorem regular (bound : Bound) : Regular depth bound.toValue := by
  cases bound with
  | scalar value => exact value.regular
  | each values => exact Scalar.regular_sequence values

theorem unwritable_iff {bound : Bound} (h : ∀ s ∈ bound.scalars, s.Canonical) :
    Unwritable bound.toValue ↔ ∃ s ∈ bound.scalars, s.Exceeds := by
  cases bound with
  | scalar value =>
    rw [toValue, Scalar.unwritable_iff (List.forall_mem_singleton.1 h)]
    simp [scalars]
  | each values => exact Scalar.unwritable_sequence h

end Bound

namespace Space

/-- Some integer of the space is above the signed range. -/
def Exceeds (space : Space) : Prop :=
  (∃ s ∈ space.scalars, s.Exceeds) ∨ ∃ n ∈ space.axes, Int64.maxValue.toInt < n.toNat

theorem regular (space : Space) : Regular (depth + 1) space.toValue := by
  cases space with
  | box low high shape type =>
    have hshape : Regular depth (.sequence (shape.map .ofUInt64)) :=
      Toml.regular_sequence_map fun n _ => Toml.nests_ofUInt64 n
    exact Toml.regular_ofEntries (by simp [low.regular, high.regular, hshape])
  | multiDiscrete cardinalities =>
    have hcardinalities : Regular depth (.sequence (cardinalities.map .integer)) :=
      Toml.regular_sequence_map fun _ _ => trivial
    exact Toml.regular_ofEntries (by simp [hcardinalities])
  | discrete n => exact Toml.regular_ofEntries (by simp)
  | multiBinary n => exact Toml.regular_ofEntries (by simp)

theorem unwritable_iff {space : Space} (h : ∀ s ∈ space.scalars, s.Canonical) :
    Unwritable space.toValue ↔ space.Exceeds := by
  cases space with
  | box low high shape type =>
    obtain ⟨hlow, hhigh⟩ := List.forall_mem_append.1 h
    rw [toValue, Toml.unwritable_ofEntries (by simp)]
    simp only [List.exists_mem_cons_iff, Bound.unwritable_iff hlow, Bound.unwritable_iff hhigh,
      Toml.unwritable_text, Toml.unwritable_sequence_map, Toml.inline_ofUInt64_eq_none, Exceeds, scalars, axes,
      List.mem_append, or_and_right, exists_or, List.not_mem_nil, false_and, exists_false, or_false, false_or,
      or_assoc]
  | multiDiscrete cardinalities =>
    rw [toValue, Toml.unwritable_ofEntries (by simp)]
    simp [Exceeds, scalars, axes, Toml.inline]
  | discrete n =>
    rw [toValue, Toml.unwritable_ofEntries (by simp)]
    simp [Exceeds, scalars, axes]
  | multiBinary n =>
    rw [toValue, Toml.unwritable_ofEntries (by simp)]
    simp [Exceeds, scalars, axes]

end Space

namespace RewardRange

theorem regular (range : RewardRange) : Regular depth range.toValue :=
  Scalar.regular_sequence range.scalars

theorem unwritable_iff {range : RewardRange} (h : ∀ s ∈ range.scalars, s.Canonical) :
    Unwritable range.toValue ↔ ∃ s ∈ range.scalars, s.Exceeds :=
  Scalar.unwritable_sequence h

end RewardRange

namespace Initializer

theorem regular (init : Initializer) : Regular (depth + 1) init.toValue := by
  cases init with
  | seed => exact Toml.regular_ofEntries (by simp)
  | constant value => exact Toml.regular_ofEntries (by simp [value.regular])
  | uniform low high => exact Toml.regular_ofEntries (by simp [low.regular, high.regular])
  | custom code => exact Toml.regular_ofEntries (by simp)

theorem unwritable_iff {init : Initializer} (h : ∀ s ∈ init.scalars, s.Canonical) :
    Unwritable init.toValue ↔ ∃ s ∈ init.scalars, s.Exceeds := by
  cases init with
  | seed =>
    rw [toValue, Toml.unwritable_ofEntries (by simp)]
    simp [scalars]
  | constant value =>
    rw [toValue, Toml.unwritable_ofEntries (by simp)]
    simp [scalars, Scalar.unwritable_iff (List.forall_mem_singleton.1 h)]
  | uniform low high =>
    obtain ⟨hlow, hhigh⟩ := List.forall_mem_append.1 h
    rw [toValue, Toml.unwritable_ofEntries (by simp)]
    simp [scalars, Bound.unwritable_iff hlow, Bound.unwritable_iff hhigh, or_and_right, exists_or]
  | custom code =>
    rw [toValue, Toml.unwritable_ofEntries (by simp)]
    simp [scalars]

end Initializer

/-! ## The gym view -/

theorem InfoSelector.regular (info : InfoSelector) : Regular depth info.toValue := by
  cases info with
  | all forward => trivial
  | keys ks => exact Toml.regular_sequence_map fun _ _ => trivial

theorem InfoSelector.unwritable_iff (info : InfoSelector) : Unwritable info.toValue ↔ False := by
  cases info with
  | all forward => exact Toml.unwritable_boolean forward
  | keys ks =>
    rw [toValue, Value.ofTexts, Toml.unwritable_sequence_map]
    simp [Toml.inline]

namespace Gym

/-- The axes of both spaces. -/
def axes (gym : Gym) : List UInt64 := gym.actionSpace.axes ++ gym.observationSpace.axes

theorem regular (gym : Gym) : Regular (depth + 2) gym.toValue := by
  have haction : Regular (depth + 1) gym.actionSpace.toValue := gym.actionSpace.regular
  have hobservation : Regular (depth + 1) gym.observationSpace.toValue := gym.observationSpace.regular
  exact Toml.regular_ofEntries (by simp [haction, hobservation, gym.info.regular, gym.rewardRange.regular])

theorem unwritable_iff {gym : Gym} (h : ∀ s ∈ gym.scalars, s.Canonical) : Unwritable gym.toValue ↔
    (∃ s ∈ gym.scalars, s.Exceeds) ∨ ∃ n ∈ gym.axes, Int64.maxValue.toInt < n.toNat := by
  obtain ⟨haction, hobservation, hreward⟩ := forall_mem_scalars.1 h
  have hfields : Unwritable gym.toValue ↔ gym.actionSpace.Exceeds ∨ gym.observationSpace.Exceeds ∨
      ∃ s ∈ gym.rewardRange.scalars, s.Exceeds := by
    rw [toValue, Toml.unwritable_ofEntries (by simp)]
    simp [gym.info.unwritable_iff, Space.unwritable_iff haction, Space.unwritable_iff hobservation,
      RewardRange.unwritable_iff hreward]
  rw [hfields, scalars_eq]
  simp only [Space.Exceeds, axes, List.mem_append, or_and_right, exists_or]
  grind only

end Gym

/-! ## Environments -/

theorem Reset.regular (reset : Reset) : Regular (depth + 1) reset.toValue :=
  Toml.regular_ofEntries (by simp)

theorem Reset.unwritable_iff (reset : Reset) : Unwritable reset.toValue ↔ False := by
  rw [toValue, Toml.unwritable_ofEntries (by simp)]
  simp

namespace Environment

variable {env : Environment}

/-- The axes of the spaces. -/
def axes (env : Environment) : List UInt64 := env.gym.toList.flatMap Gym.axes

/-- All integers that can be above the signed range. -/
def integers (env : Environment) : List Int :=
  env.scalars.filterMap Scalar.integer? ++ env.axes.map fun n => (n.toNat : Int)

/-- Some integer is above the signed range. -/
def Exceeds (env : Environment) : Prop := ∃ i ∈ env.integers, Int64.maxValue.toInt < i

instance (env : Environment) : Decidable env.Exceeds :=
  inferInstanceAs (Decidable (∃ i ∈ env.integers, Int64.maxValue.toInt < i))

theorem exceeds_iff : env.Exceeds ↔
    (∃ s ∈ env.scalars, s.Exceeds) ∨ ∃ n ∈ env.axes, Int64.maxValue.toInt < n.toNat := by
  simp only [Exceeds, integers, List.mem_append, List.mem_filterMap, List.mem_map, or_and_right, exists_or,
    Scalar.Exceeds]
  refine or_congr ⟨?_, ?_⟩ ⟨?_, ?_⟩
  · rintro ⟨i, ⟨s, hs, hi⟩, hlarge⟩
    exact ⟨s, hs, i, hi, hlarge⟩
  · rintro ⟨s, hs, i, hi, hlarge⟩
    exact ⟨i, ⟨s, hs, hi⟩, hlarge⟩
  · rintro ⟨_, ⟨n, hn, rfl⟩, hlarge⟩
    exact ⟨n, hn, hlarge⟩
  · rintro ⟨n, hn, hlarge⟩
    exact ⟨_, ⟨n, hn, rfl⟩, hlarge⟩

theorem versionKey_not_mem_fields (env : Environment) : versionKey ∉ env.fields.map Prod.fst := by
  simp [fields, versionKey]

theorem regular (env : Environment) : Regular (depth + 3) (.ofEntries env.fields) := by
  have hgym : Regular (depth + 2) ((env.gym.map Gym.toValue).getD .null) := by
    cases env.gym with
    | none => exact Toml.regular_null
    | some gym => exact gym.regular
  have hparameter : Regular (depth + 2)
      (.table (env.parameter.entries.map fun entry => (entry.1, entry.2.toValue))) :=
    Toml.regular_textMap env.parameter fun init _ => init.regular
  exact Toml.regular_ofEntries (by simp [fields, hgym, hparameter, env.reset.regular])

theorem unwritable_parameter {map : TextMap Initializer}
    (h : ∀ init ∈ map.values, ∀ s ∈ init.scalars, s.Canonical) :
    Unwritable (.table (map.entries.map fun entry => (entry.1, entry.2.toValue))) ↔
      ∃ s ∈ map.values.flatMap Initializer.scalars, s.Exceeds := by
  rw [Toml.unwritable_textMap]
  constructor
  · rintro ⟨init, hinit, hunwritable⟩
    obtain ⟨s, hs, hexceeds⟩ := (Initializer.unwritable_iff (h init hinit)).1 hunwritable
    exact ⟨s, List.mem_flatMap.2 ⟨init, hinit, hs⟩, hexceeds⟩
  · rintro ⟨s, hs, hexceeds⟩
    obtain ⟨init, hinit, hs⟩ := List.mem_flatMap.1 hs
    exact ⟨init, hinit, (Initializer.unwritable_iff (h init hinit)).2 ⟨s, hs, hexceeds⟩⟩

theorem unwritable_gym {gym : Option Gym} (h : ∀ g, gym = some g → ∀ s ∈ g.scalars, s.Canonical) :
    Unwritable ((gym.map Gym.toValue).getD .null) ↔
      (∃ s ∈ gym.toList.flatMap Gym.scalars, s.Exceeds) ∨
        ∃ n ∈ gym.toList.flatMap Gym.axes, Int64.maxValue.toInt < n.toNat := by
  cases gym with
  | none => simp
  | some g => simpa using Gym.unwritable_iff (h g rfl)

theorem unwritable_iff (h : env.Valid) : (∃ entry ∈ env.fields, Unwritable entry.2) ↔ env.Exceeds := by
  obtain ⟨hgym, hparameter⟩ := forall_mem_scalars.1 h.scalars
  have hfields : (∃ entry ∈ env.fields, Unwritable entry.2) ↔
      Unwritable ((env.gym.map Gym.toValue).getD .null) ∨
        Unwritable (.table (env.parameter.entries.map fun entry => (entry.1, entry.2.toValue))) := by
    simp [fields, env.reset.unwritable_iff]
  rw [hfields, unwritable_gym hgym, unwritable_parameter hparameter, exceeds_iff, scalars, axes]
  simp only [List.mem_append, or_and_right, exists_or]
  grind only

/-- A number of a TOML document is read as the number that was written. -/
theorem decode_of_shows_toml {entries : List (String × Value)} (h : env.Valid)
    (hshows : Shows .toml env.fields entries) : decode (.table entries) = .ok env := by
  have hread := decode_of_shows h (fun s hs => Scalar.saidIn_toml (h.scalars s hs)) hshows
  have hsame : env.mapFloats View.toml.reread = env := mapFloats_eq_self_iff.2 fun _ _ => rfl
  rwa [hsame] at hread

/-- An environment without such an integer has a text, and is read back from it. -/
theorem exists_toToml (h : env.Valid) (hwithin : ¬ env.Exceeds) :
    ∃ text, env.toToml = .ok text ∧ ofToml text = .ok env := by
  obtain ⟨text, hwrite, hread⟩ := Toml.exists_text env.regular env.nodup_fields
    env.versionKey_not_mem_fields (mt (unwritable_iff h).1 hwithin) fun _ => decode_of_shows_toml h
  exact ⟨text, hwrite, hread _⟩

/--
Whatever becomes of an environment, it has no text exactly if one of its integers is above the signed
range, and every other environment is read back from its text.
-/
theorem toml_roundTrip (h : env.Reachable) :
    (env.toToml = .error .tomlRange ↔ ∃ i ∈ env.integers, Int64.maxValue.toInt < i) ∧
    ((¬ ∃ i ∈ env.integers, Int64.maxValue.toInt < i) →
      ∃ text, env.toToml = .ok text ∧ ofToml text = .ok env) := by
  have hvalid := h.valid
  refine ⟨?_, exists_toToml hvalid⟩
  rw [toToml, toValue_eq, Toml.writeVersioned_eq_error env.nodup_fields env.versionKey_not_mem_fields,
    unwritable_iff hvalid]
  rfl

end Environment

namespace Pendulum

theorem watched_toml_roundTrip :
    (module drive (watched.withKeys watchedKeys)).env.Reachable ∧
    ∃ text, (module drive (watched.withKeys watchedKeys)).env.toToml = .ok text ∧
      Environment.ofToml text = .ok (module drive (watched.withKeys watchedKeys)).env := by
  have hwithin : ¬ ∃ i ∈ (module drive (watched.withKeys watchedKeys)).env.integers,
      Int64.maxValue.toInt < i := by
    decide
  exact ⟨reachable_watched, (Environment.toml_roundTrip reachable_watched).2 hwithin⟩

end Pendulum

end ModelBinding
