import ModelBinding.Environment.Document
import ModelBinding.Proofs.Context.Scalars

/-!
# Environments in documents

What reading an environment guarantees, and that it comes out of every document that can say all its
scalars, with its numbers as they are read there. A dump in either mode can say the scalars if they are
numbers.
-/
namespace ModelBinding

variable {mode : DumpMode} {rounding : Rounding} {view : View} {isMap : Bool} {v : Value} {depth : Nat}

/-! ## The gym view -/

namespace InfoSelector

theorem decode_shown (info : InfoSelector) : decode (view.shown isMap info.toValue) = .ok info := by
  cases info with
  | all forward =>
    rw [toValue, view.boolean]
    rfl
  | keys ks =>
    have hkeys : Decoder.sequence .text (view.shown isMap (.ofTexts ks)) = .ok ks :=
      Decoder.sequence_texts_shown ks
    rw [Value.ofTexts, view.sequence] at hkeys
    rw [toValue, Value.ofTexts, view.sequence]
    simp only [decode, Decoder.boolean, hkeys]

theorem dumps (info : InfoSelector) : info.toValue.Dumps (depth + 1) := by
  cases info with
  | all forward => exact Value.dumps_boolean forward
  | keys ks => exact Value.dumps_sequence_map fun k _ => Value.dumps_text k

end InfoSelector

namespace Gym

theorem scalars_eq (gym : Gym) : gym.scalars =
    gym.actionSpace.scalars ++ gym.observationSpace.scalars ++ gym.rewardRange.scalars := rfl

theorem forall_mem_scalars {gym : Gym} {p : Scalar → Prop} : (∀ s ∈ gym.scalars, p s) ↔
    (∀ s ∈ gym.actionSpace.scalars, p s) ∧ (∀ s ∈ gym.observationSpace.scalars, p s) ∧
      ∀ s ∈ gym.rewardRange.scalars, p s := by
  rw [scalars_eq, List.forall_mem_append, List.forall_mem_append, and_assoc]

theorem default_exact : ∀ s ∈ default.scalars, s.Exact :=
  forall_mem_scalars.2 ⟨Space.default_exact, Space.default_exact, RewardRange.unbounded_exact⟩

theorem of_decode {gym : Gym} (h : decode v = .ok gym) :
    gym.rewardRange.Valid ∧ ∀ s ∈ gym.scalars, s.FitsIn v := by
  obtain ⟨entries, rfl, hread⟩ := Decoder.record_eq_ok.1 h
  simp only [Record.reads_seq, Record.reads_map] at hread
  obtain ⟨_, ⟨_, ⟨_, ⟨_, ⟨_, ⟨_, ⟨_, ⟨_, ⟨action, -, rfl⟩, observation, -, rfl⟩, reward, -, rfl⟩,
    done, -, rfl⟩, info, -, rfl⟩, actionSpace, haction, rfl⟩, observationSpace, hobservation, rfl⟩,
    range, hrange, rfl⟩, coercion, -, rfl⟩ := hread
  obtain ⟨hvalid, hscalars⟩ := RewardRange.of_reads hrange
  exact ⟨hvalid, forall_mem_scalars.2
    ⟨Space.fitsIn_of_reads haction, Space.fitsIn_of_reads hobservation, hscalars⟩⟩

/-- What is filled in for a gym view that is left out is as good as one that is read. -/
theorem of_reads {fields : List (String × Value)} {key : String} {gym : Option Gym}
    (h : (Record.optional key decode).Reads fields gym) :
    (gym.getD default).rewardRange.Valid ∧
      ∀ s ∈ (gym.getD default).scalars, s.FitsIn (.table fields) := by
  cases gym with
  | none => exact ⟨⟨rfl, rfl⟩, fun s hs => (default_exact s hs).fitsIn⟩
  | some gym =>
    obtain ⟨w, hlookup, hdecode⟩ := Decoder.eq_some_of_reads_optional h
    obtain ⟨hrange, hscalars⟩ := of_decode hdecode
    exact ⟨hrange, fun s hs => (hscalars s hs).of_lookup hlookup⟩

theorem decode_shown {gym : Gym} (hrange : gym.rewardRange.Valid)
    (h : ∀ s ∈ gym.scalars, s.SaidIn view) :
    decode (view.shown false gym.toValue) = .ok (gym.mapFloats view.reread) := by
  obtain ⟨haction, hobservation, hreward⟩ := forall_mem_scalars.1 h
  apply Decoder.record_shown (by simp)
  refine .seq (.seq (.seq (.seq (.seq (.seq (.seq (.seq (.map mk ?actionKey) ?observationKey)
    ?rewardKey) ?doneKey) ?info) ?actionSpace) ?observationSpace) ?rewardRange) ?typeCoercion
  case actionKey => exact .optionalText rfl (by decide)
  case observationKey => exact .optionalText rfl (by decide)
  case rewardKey => exact .optionalText rfl (by decide)
  case doneKey => exact .optionalText rfl (by decide)
  case info => exact .withDefault rfl (by decide) (fun h => nomatch h) gym.info.decode_shown
  case actionSpace =>
    exact .withDefault rfl (by decide) (fun h => nomatch h) (Space.decode_shown haction)
  case observationSpace =>
    exact .withDefault rfl (by decide) (fun h => nomatch h) (Space.decode_shown hobservation)
  case rewardRange =>
    exact .withDefault rfl (by decide) (fun h => nomatch h) (RewardRange.decode_shown hrange hreward)
  case typeCoercion => exact .booleanOr rfl (by decide)

theorem dumps {gym : Gym} (h : ∀ s ∈ gym.scalars, s.Canonical) :
    gym.toValue.Dumps (depth + 3) := by
  obtain ⟨haction, hobservation, hreward⟩ := forall_mem_scalars.1 h
  have haction : gym.actionSpace.toValue.Dumps (depth + 2) := Space.dumps haction
  have hobservation : gym.observationSpace.toValue.Dumps (depth + 2) := Space.dumps hobservation
  have hreward : gym.rewardRange.toValue.Dumps (depth + 2) := RewardRange.dumps hreward
  have hinfo : gym.info.toValue.Dumps (depth + 2) := InfoSelector.dumps gym.info
  exact Value.dumps_ofEntries (by simp [haction, hobservation, hreward, hinfo])

end Gym

/-! ## The reset -/

namespace Reset

/-- Only the port that matters is there. -/
theorem ports (reset : Reset) :
    (reset.firstStep = true → reset.output = none) ∧ (reset.firstStep = false → reset.input = none) := by
  obtain ⟨firstStep, input, output, alone⟩ := reset
  cases firstStep with
  | true => exact ⟨fun _ => alone, fun h => nomatch h⟩
  | false => exact ⟨(fun h => nomatch h), fun _ => alone⟩

theorem make_self (reset : Reset) : make reset.firstStep reset.input reset.output = reset := by
  obtain ⟨houtput, hinput⟩ := reset.ports
  obtain ⟨firstStep, input, output, alone⟩ := reset
  cases firstStep with
  | true =>
    cases houtput rfl
    rfl
  | false =>
    cases hinput rfl
    rfl

theorem decode_shown (reset : Reset) : decode (view.shown false reset.toValue) = .ok reset := by
  rw [← congrArg Except.ok reset.make_self]
  apply Decoder.record_shown (by simp)
  refine .seq (.seq (.map make ?firstStep) ?input) ?output
  case firstStep => exact .boolean rfl (by decide)
  case input => exact .optionalText rfl (by decide)
  case output => exact .optionalText rfl (by decide)

theorem dumps (reset : Reset) : reset.toValue.Dumps (depth + 1) :=
  Value.dumps_ofEntries (by simp)

end Reset

/-! ## Environments -/

namespace Environment

/-- What reading an environment guarantees. -/
structure Valid (env : Environment) : Prop where
  scalars : ∀ s ∈ env.scalars, s.Canonical
  gym : env.gym.isSome = env.useGym
  range : ∀ gym, env.gym = some gym → gym.rewardRange.Valid

/-- An environment whose gym view is there exactly if it is wanted is made as it is. -/
theorem make_self {env : Environment} (hgym : env.gym.isSome = env.useGym) :
    make env.useRaw env.useGym env.useRng env.useVec env.vecParallel env.gym (some env.reset)
      env.parameter = env := by
  obtain ⟨useRaw, useGym, useRng, useVec, vecParallel, gym, reset, parameter⟩ := env
  cases gym with
  | none =>
    cases useGym with
    | false => rfl
    | true => cases hgym
  | some gym =>
    cases useGym with
    | false => cases hgym
    | true => rfl

theorem forall_mem_scalars {env : Environment} {p : Scalar → Prop} : (∀ s ∈ env.scalars, p s) ↔
    (∀ gym, env.gym = some gym → ∀ s ∈ gym.scalars, p s) ∧
      ∀ init ∈ env.parameter.values, ∀ s ∈ init.scalars, p s := by
  simp only [scalars, List.forall_mem_append, List.forall_mem_flatMap, Option.mem_toList]

theorem holdsNan_eq_false {env : Environment} :
    env.holdsNan = false ↔ ∀ s ∈ env.scalars, s.isNan = false := by
  rw [holdsNan, List.any_eq_false]
  simp only [Bool.not_eq_true]

/-- No initializer of a parameter holds what is no number. -/
def NumericParameters (env : Environment) : Prop :=
  ∀ init ∈ env.parameter.values, ∀ s ∈ init.scalars, s.isNan = false

theorem textMap_fitsIn {map : TextMap Initializer}
    (h : Decoder.textMap Initializer.decode v = .ok map) :
    ∀ init ∈ map.values, ∀ s ∈ init.scalars, s.FitsIn v := by
  obtain ⟨entries, rfl, read, hread, rfl⟩ := Decoder.textMap_eq_ok.1 h
  intro init hinit s hs
  obtain ⟨entry, hentry, rfl⟩ := List.mem_map.1 hinit
  obtain ⟨written, hwritten, hdecode, -⟩ := exists_of_mem_right hread (mem_orderEntries hentry)
  exact (Initializer.fitsIn_of_decode hdecode s hs).of_part fun hv =>
    Value.isFinite_table.1 hv written hwritten

theorem initializers_fitsIn_of_reads {fields : List (String × Value)} {key : String}
    {map : TextMap Initializer}
    (h : (Record.withDefault key (.textMap Initializer.decode) .empty).Reads fields map) :
    ∀ init ∈ map.values, ∀ s ∈ init.scalars, s.FitsIn (.table fields) := by
  rcases Record.reads_withDefault.1 h with ⟨-, rfl⟩ | ⟨w, hlookup, hdecode⟩
  · exact List.forall_mem_nil _
  · exact fun init hinit s hs => (textMap_fitsIn hdecode init hinit s hs).of_lookup hlookup

theorem of_decode {env : Environment} (h : decode v = .ok env) :
    env.Valid ∧ (v.IsFinite → env.holdsNan = false) := by
  obtain ⟨entries, rfl, hread⟩ := Decoder.record_eq_ok.1 h
  simp only [Record.reads_seq, Record.reads_map] at hread
  obtain ⟨_, ⟨_, ⟨_, ⟨_, ⟨_, ⟨_, ⟨_, ⟨useRaw, -, rfl⟩, useGym, -, rfl⟩, useRng, -, rfl⟩,
    useVec, -, rfl⟩, vecParallel, -, rfl⟩, gym, hgym, rfl⟩, reset, -, rfl⟩,
    parameter, hparameter, rfl⟩ := hread
  obtain ⟨hrange, hgym⟩ := Gym.of_reads hgym
  let env := make useRaw useGym useRng useVec vecParallel gym reset parameter
  have hgymOnly : ∀ g, env.gym = some g → g = gym.getD .default := by
    intro g hg
    cases useGym with
    | false => cases hg
    | true =>
      cases hg
      rfl
  have hscalars : ∀ s ∈ env.scalars, s.FitsIn (.table entries) := by
    refine forall_mem_scalars.2 ⟨fun g hg => ?_, initializers_fitsIn_of_reads hparameter⟩
    rw [hgymOnly g hg]
    exact hgym
  refine ⟨⟨fun s hs => (hscalars s hs).1, ?_, fun g hg => ?_⟩, fun hv => ?_⟩
  · cases useGym with
    | _ => rfl
  · rw [hgymOnly g hg]
    exact hrange
  · exact holdsNan_eq_false.2 fun s hs => (hscalars s hs).2 hv

theorem recovers_gym {fields : List (String × Value)} (gym : Option Gym)
    (hrange : ∀ g, gym = some g → g.rewardRange.Valid)
    (h : ∀ g, gym = some g → ∀ s ∈ g.scalars, s.SaidIn view)
    (hlookup : fields.lookup "gym" = some ((gym.map Gym.toValue).getD .null)) :
    (Record.optional "gym" Gym.decode).Recovers view fields (gym.map (Gym.mapFloats view.reread)) := by
  cases gym with
  | none => exact .optional_null hlookup (by decide)
  | some g =>
    exact .optional hlookup (by decide) (fun h => nomatch h)
      (Gym.decode_shown (hrange g rfl) (h g rfl))

/-- The entries that an environment is written with. -/
def fields (env : Environment) : List (String × Value) := [
  ("use_raw", .boolean env.useRaw),
  ("use_gym", .boolean env.useGym),
  ("use_rng", .boolean env.useRng),
  ("use_vec", .boolean env.useVec),
  ("vec_parallel", .boolean env.vecParallel),
  ("gym", (env.gym.map Gym.toValue).getD .null),
  ("reset", env.reset.toValue),
  ("parameter", .table (env.parameter.entries.map fun entry => (entry.1, entry.2.toValue)))]

theorem toValue_eq (env : Environment) : env.toValue = .ofEntries env.fields := rfl

theorem nodup_fields (env : Environment) : (env.fields.map Prod.fst).Nodup := by
  simp [fields]

theorem decode_of_shows {env : Environment} {entries : List (String × Value)} (h : env.Valid)
    (hsaid : ∀ s ∈ env.scalars, s.SaidIn view) (hshows : Shows view env.fields entries) :
    decode (.table entries) = .ok (env.mapFloats view.reread) := by
  obtain ⟨hgym, hparameter⟩ := forall_mem_scalars.1 hsaid
  refine Decoder.record_eq_ok.2 ⟨entries, rfl, ?_⟩
  rw [← @make_self (env.mapFloats view.reread) (Option.isSome_map.trans h.gym)]
  refine Record.Recovers.seq (.seq (.seq (.seq (.seq (.seq (.seq (.map make ?useRaw) ?useGym) ?useRng) ?useVec)
    ?vecParallel) ?gym) ?reset) ?parameter entries hshows
  case useRaw => exact .boolean rfl (by decide)
  case useGym => exact .boolean rfl (by decide)
  case useRng => exact .boolean rfl (by decide)
  case useVec => exact .boolean rfl (by decide)
  case vecParallel => exact .boolean rfl (by decide)
  case gym => exact recovers_gym env.gym h.range hgym rfl
  case reset =>
    exact .optional rfl (by decide) (fun h => nomatch h) env.reset.decode_shown
  case parameter =>
    exact .withDefault rfl (by decide) (fun h => nomatch h)
      (Decoder.textMap_shown_map Initializer.toValue_ne_null fun init hinit =>
        Initializer.decode_shown (hparameter init hinit))

theorem decode_shown {env : Environment} (h : env.Valid) (hsaid : ∀ s ∈ env.scalars, s.SaidIn view) :
    decode (view.shown false env.toValue) = .ok (env.mapFloats view.reread) := by
  obtain ⟨entries, hentries, hshows⟩ := view.exists_shows env.nodup_fields
  rw [toValue_eq, hentries]
  exact decode_of_shows h hsaid hshows

/-- A dump says every scalar of an environment without what is no number. -/
theorem saidIn_dump {env : Environment} (h : env.Valid) (hnan : env.holdsNan = false) :
    ∀ s ∈ env.scalars, s.SaidIn (.dump mode rounding) := fun s hs =>
  Scalar.Exact.saidIn_dump ⟨h.scalars s hs, holdsNan_eq_false.1 hnan s hs⟩

theorem dumps {env : Environment} (h : env.Valid) : env.toValue.Dumps (depth + 4) := by
  obtain ⟨hgym, hparameter⟩ := forall_mem_scalars.1 h.scalars
  have hgym : ((env.gym.map Gym.toValue).getD .null).Dumps (depth + 3) := by
    cases hg : env.gym with
    | none => exact Value.dumps_null
    | some gym => exact Gym.dumps (hgym gym hg)
  have hreset : env.reset.toValue.Dumps (depth + 3) := Reset.dumps env.reset
  have hparameter : (Value.table (env.parameter.entries.map fun entry =>
      (entry.1, entry.2.toValue))).Dumps (depth + 3) := by
    refine Value.dumps_table (keyOrdered_map _ env.parameter.ordered) fun entry hentry => ?_
    obtain ⟨written, hwritten, rfl⟩ := List.mem_map.1 hentry
    exact Initializer.dumps (hparameter written.2 (List.mem_map_of_mem hwritten))
  exact Value.dumps_ofEntries (by simp [hgym, hreset, hparameter])

end Environment

end ModelBinding
