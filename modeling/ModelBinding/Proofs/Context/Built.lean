import ModelBinding.Proofs.Context.RoundTrip

/-!
# Built contexts

What building guarantees of a context: its parts are valid, and only the initializers of parameters
can hold what is no number, since the bounds of spaces and rewards have to have literals.
-/
namespace ModelBinding

variable {v : Value}

/-! ## Literals -/

theorem Binary64.isNan_eq_false {x : Binary64} : x.isNan = false ↔ x ≠ .nan := by
  cases x <;> simp [isNan]

namespace Literal

theorem isNan_of_floating {value : Scalar} {type : ElementType} {text : String}
    (h : floating value type = .ok text) : value.isNan = false := by
  unfold floating at h
  split_ifs at h
  split at h
  · rfl
  · unfold double at h
    split_ifs at h with hx
    exact eq_false_of_ne_true hx
  · rfl
  · rfl

theorem isNan_of_integer {value : Scalar} {type : ElementType} {text : String}
    (h : integer value type = .ok text) : value.isNan = false := by
  cases value with
  | float x =>
    cases x with
    | nan => cases h
    | _ => rfl
  | _ => rfl

theorem isNan_of_number {value : Scalar} {type : ElementType} {text : String}
    (h : number value type = .ok text) : value.isNan = false := by
  unfold number at h
  split_ifs at h
  · exact isNan_of_integer h
  · exact isNan_of_floating h

theorem isNan_of_bound {value : Bound} {type : ElementType} {text : String}
    (h : bound value type = .ok text) : ∀ s ∈ value.scalars, s.isNan = false := by
  cases value with
  | scalar s => exact List.forall_mem_singleton.2 (isNan_of_number h)
  | each values =>
    obtain ⟨texts, htexts, -⟩ := map_eq_ok.1 h
    intro s hs
    obtain ⟨text, -, htext⟩ := exists_of_mem_left (mapM_eq_ok.1 htexts) hs
    exact isNan_of_number htext

/-- Every number has a literal of a floating point type. -/
theorem exists_floating {value : Scalar} {type : ElementType} (htype : type.isFloat = true)
    (h : value.isNan = false) : ∃ text, floating value type = .ok text := by
  have hdouble : ∀ x : Binary64, x.isNan = false → ∃ text, double x type = .ok text :=
    fun x hx => ⟨_, if_neg (ne_true_of_eq_false hx)⟩
  unfold floating
  rw [if_pos htype]
  cases value with
  | int i => exact hdouble _ (Binary64.isNan_eq_false.2 (Binary64.ofInt_ne_nan _))
  | uint n => exact hdouble _ (Binary64.isNan_eq_false.2 (Binary64.ofInt_ne_nan _))
  | float x => exact hdouble x h
  | infinity negative => exact ⟨_, rfl⟩

theorem exists_number {value : Scalar} {type : ElementType} (htype : type.isFloat = true)
    (h : value.isNan = false) : ∃ text, number value type = .ok text := by
  have hinteger : type.isInteger = false := by rw [ElementType.isInteger, htype]; rfl
  rw [number, if_neg (ne_true_of_eq_false hinteger)]
  exact exists_floating htype h

end Literal

namespace Space

theorem isNan_of_check {space : Space} {role : String} (h : space.check role = .ok ()) :
    ∀ s ∈ space.scalars, s.isNan = false := by
  unfold check at h
  split at h
  · cases h
  · split at h
    · cases h
    · rename_i text htext
      cases space with
      | box low high shape type =>
        obtain ⟨lowText, hlow, hrest⟩ := bind_eq_ok.1 htext
        obtain ⟨highText, hhigh, -⟩ := bind_eq_ok.1 hrest
        exact List.forall_mem_append.2 ⟨Literal.isNan_of_bound hlow, Literal.isNan_of_bound hhigh⟩
      | _ => exact fun s hs => nomatch hs

theorem check_of_initializer {space : Space} {role text : String} (hflaw : space.flaw? = none)
    (h : space.initializer = .ok text) : space.check role = .ok () := by
  rw [check, hflaw, h]

/-- The space of a document that says nothing about it can be written. -/
theorem check_default (role : String) : default.check role = .ok () := by
  have hliteral : ∀ s ∈ default.scalars, ∃ text, Literal.number s .float64 = .ok text :=
    fun s hs => Literal.exists_number rfl (default_exact s hs).number
  obtain ⟨low, hlow⟩ := hliteral _ List.mem_cons_self
  obtain ⟨high, hhigh⟩ := hliteral _ (List.mem_cons_of_mem _ List.mem_cons_self)
  exact check_of_initializer rfl
    (bind_eq_ok.2 ⟨low, hlow, bind_eq_ok.2 ⟨high, hhigh, bind_eq_ok.2 ⟨_, rfl, rfl⟩⟩⟩)

end Space

namespace Gym

/-- A gym view passes its check exactly if it passes each part of it. -/
theorem check_eq_ok {gym : Gym} {inputs outputs : PlacedType} :
    gym.check inputs outputs = .ok () ↔ requireKey? "Action" gym.actionKey inputs = .ok () ∧
      leastOutputs ≤ outputs.definition.fields.length ∧
      requireKey? "Observation" gym.observationKey outputs = .ok () ∧
      requireKey? "Reward" gym.rewardKey outputs = .ok () ∧
      requireKey? "Done" gym.doneKey outputs = .ok () ∧
      (∀ ks, gym.info = .keys ks → ∀ key ∈ ks, requireKey "Info" key outputs = .ok ()) ∧
      gym.actionSpace.check "action" = .ok () ∧ gym.observationSpace.check "observation" = .ok () ∧
      ∃ text, gym.rewardInitializer = .ok text := by
  unfold check
  by_cases hleast : outputs.definition.fields.length < leastOutputs
  · rw [if_pos hleast]
    refine iff_of_false (fun h => ?_) (fun h => absurd h.2.1 (Nat.not_le.2 hleast))
    obtain ⟨-, h⟩ := andThen_eq_ok.1 h
    cases h
  · rw [if_neg hleast]
    cases gym.info with
    | all forward =>
      simp [andThen_eq_ok, discard_eq_ok, mapError_eq_ok, Nat.le_of_not_lt hleast]
    | keys ks =>
      simp [andThen_eq_ok, discard_eq_ok, mapError_eq_ok, forM_eq_ok, Nat.le_of_not_lt hleast]

theorem isNan_of_rewardInitializer {gym : Gym} {text : String}
    (h : gym.rewardInitializer = .ok text) : ∀ s ∈ gym.rewardRange.scalars, s.isNan = false := by
  obtain ⟨low, hlow, hrest⟩ := bind_eq_ok.1 h
  obtain ⟨high, hhigh, -⟩ := bind_eq_ok.1 hrest
  exact List.forall_mem_cons.2 ⟨Literal.isNan_of_floating hlow,
    List.forall_mem_singleton.2 (Literal.isNan_of_floating hhigh)⟩

theorem isNan_of_check {gym : Gym} {inputs outputs : PlacedType}
    (h : gym.check inputs outputs = .ok ()) : ∀ s ∈ gym.scalars, s.isNan = false := by
  obtain ⟨-, -, -, -, -, -, haction, hobservation, text, hreward⟩ := check_eq_ok.1 h
  exact forall_mem_scalars.2 ⟨Space.isNan_of_check haction, Space.isNan_of_check hobservation,
    isNan_of_rewardInitializer hreward⟩

end Gym

/-! ## Preparing the environment -/

namespace Environment

/-- Without a wrapper nothing is asked for; otherwise every part has to fit. -/
theorem check_eq_ok {env : Environment} {module : Module} :
    env.check module = .ok () ↔ (env.useGym = false ∧ env.useRaw = false) ∨
      ∃ inputs, module.filledRole Role.externalInputs noInputs = .ok inputs ∧
      ∃ outputs, module.filledRole Role.externalOutputs noOutputs = .ok outputs ∧
      ∃ parameters, module.filledRole Role.instanceParameters noParameters = .ok parameters ∧
      (∀ gym, env.activeGym = some gym → gym.check inputs outputs = .ok ()) ∧
      ∀ entry ∈ env.parameter.entries, entry.2.checkParameter parameters entry.1 = .ok () := by
  unfold check
  by_cases hunused : env.useGym = false ∧ env.useRaw = false
  · simp [hunused.1, hunused.2, pure, Except.pure]
  · have hused : (!env.useGym && !env.useRaw) = false := by
      simpa using hunused
    rw [if_neg (by simp [hused]), or_iff_right hunused]
    cases env.activeGym with
    | none => simp [bind_eq_ok, forM_eq_ok]
    | some gym => simp [bind_eq_ok, exists_ok_iff, forM_eq_ok]

theorem activeGym_eq_some {env : Environment} {gym : Gym} :
    env.activeGym = some gym ↔ env.gym = some gym ∧ env.useGym = true :=
  Option.filter_eq_some_iff

/-- A gym view in use passes its check against the inputs and outputs of the model. -/
theorem check_activeGym {env : Environment} {module : Module} {gym : Gym}
    (h : env.check module = .ok ()) (hactive : env.activeGym = some gym) :
    ∃ inputs, module.filledRole Role.externalInputs noInputs = .ok inputs ∧
      ∃ outputs, module.filledRole Role.externalOutputs noOutputs = .ok outputs ∧
      gym.check inputs outputs = .ok () := by
  rcases check_eq_ok.1 h with ⟨hunused, -⟩ | ⟨inputs, hinputs, outputs, houtputs, _, -, hcheck, -⟩
  · rw [(activeGym_eq_some.1 hactive).2] at hunused
    cases hunused
  · exact ⟨inputs, hinputs, outputs, houtputs, hcheck gym hactive⟩

theorem isNan_of_check {env : Environment} {module : Module} (hvalid : env.Valid)
    (h : env.check module = .ok ()) :
    ∀ gym, env.gym = some gym → ∀ s ∈ gym.scalars, s.isNan = false := by
  intro gym hgym
  have huse : env.useGym = true := by rw [← hvalid.gym, hgym, Option.isSome_some]
  obtain ⟨_, -, _, -, hcheck⟩ := check_activeGym h (activeGym_eq_some.2 ⟨hgym, huse⟩)
  exact Gym.isNan_of_check hcheck

/-- Filling in the keys leaves the spaces and the range of the reward alone. -/
theorem fillGym_keeps (gym : Gym) (inputs outputs : PlacedType) :
    (fillGym gym inputs outputs).1.actionSpace = gym.actionSpace ∧
      (fillGym gym inputs outputs).1.observationSpace = gym.observationSpace ∧
      (fillGym gym inputs outputs).1.rewardRange = gym.rewardRange := by
  unfold fillGym
  split
  · exact ⟨rfl, rfl, rfl⟩
  · dsimp only
    split
    · exact ⟨rfl, rfl, rfl⟩
    · split
      · exact ⟨rfl, rfl, rfl⟩
      · split
        · exact ⟨rfl, rfl, rfl⟩
        · exact ⟨rfl, rfl, rfl⟩

theorem expand_eq {env : Environment} (module : Module) (h : env.Valid) :
    (env.expand module).1 = env ∨ ∃ gym filled, env.gym = some gym ∧
      (env.expand module).1 = { env with gym := some filled } ∧
      filled.rewardRange = gym.rewardRange ∧ filled.scalars = gym.scalars := by
  unfold expand
  split_ifs with huse
  · obtain ⟨gym, hgym⟩ : ∃ gym, env.gym = some gym := by
      rw [← Option.isSome_iff_exists, h.gym, huse]
    split
    · exact .inl rfl
    · split
      · exact .inl rfl
      · rename_i inputs _ _ outputs _
        obtain ⟨haction, hobservation, hrange⟩ := fillGym_keeps gym inputs outputs
        refine .inr ⟨gym, (fillGym gym inputs outputs).1, hgym, ?_, hrange, ?_⟩
        · rw [hgym]
          rfl
        · rw [Gym.scalars_eq, haction, hobservation, hrange, Gym.scalars_eq]
  · exact .inl rfl

theorem expand_keeps {env : Environment} (module : Module) (h : env.Valid) :
    (env.expand module).1.Valid ∧ (env.expand module).1.scalars = env.scalars ∧
      (env.expand module).1.parameter = env.parameter := by
  rcases expand_eq module h with hsame | ⟨gym, filled, hgym, hfilled, hrange, hscalars⟩
  · rw [hsame]
    exact ⟨h, rfl, rfl⟩
  · have hall : (env.expand module).1.scalars = env.scalars := by
      rw [hfilled]
      simp [scalars, hgym, hscalars]
    refine ⟨⟨?_, ?_, ?_⟩, hall, by rw [hfilled]⟩
    · rw [hall]
      exact h.scalars
    · rw [hfilled, ← h.gym, hgym]
      rfl
    · rw [hfilled]
      intro g hg
      cases hg
      rw [hrange]
      exact h.range gym hgym

end Environment

namespace Module

theorem prepare_eq_ok {module prepared : Module} : module.prepare = .ok prepared ↔
    module.env.check module = .ok () ∧ (module.env.expand module).2 = .ok () ∧
      { module with env := (module.env.expand module).1 } = prepared := by
  unfold prepare
  rw [andThen_eq_ok]
  refine and_congr_right fun _ => ?_
  rcases hexpand : module.env.expand module with ⟨env, result⟩
  cases result with
  | error e => simp [throw, throwThe, MonadExceptOf.throw]
  | ok u => simp [pure, Except.pure]

end Module

/-! ## Building -/

namespace MetadataMember

/-- The members of the model class refer to no struct. -/
theorem mode_of_toModelField {member : MetadataMember} {field : Field}
    (h : member.toModelField = .ok field) : field.mode = .model := by
  obtain ⟨mode, hmode, h⟩ := bind_eq_ok.1 h
  have hmodel : mode = .model := by
    cases harray : member.isArray with
    | true => rw [harray] at hmode; cases hmode
    | false => rw [harray] at hmode; cases hmode; rfl
  rw [hmodel, if_neg (by decide)] at h
  obtain ⟨_, rfl⟩ := Field.make_eq_ok.1 h
  rfl

end MetadataMember

theorem Metadata.finite_of_ofJson {text : String} {metadata : Metadata}
    (h : Metadata.ofJson text = .ok metadata) :
    ∃ negative rank, metadata.sampleTime = .finite negative rank := by
  obtain ⟨v, hparse, h⟩ := bind_eq_ok.1 h
  obtain ⟨_, -, hrecord⟩ := bind_eq_ok.1 h
  have hv := Json.isFinite_of_parse hparse
  obtain ⟨entries, rfl, hread⟩ := Decoder.record_eq_ok.1 (mapError_eq_ok.1 hrecord)
  simp only [Record.reads_seq, Record.reads_map, Record.reads_required] at hread
  obtain ⟨_, ⟨_, ⟨_, ⟨_, ⟨_, ⟨_, ⟨name, -, rfl⟩, description, -, rfl⟩, author, -, rfl⟩,
    version, -, rfl⟩, sampleTime, ⟨w, hlookup, hsampleTime⟩, rfl⟩, modelClass, -, rfl⟩,
    structs, -, rfl⟩ := hread
  exact Decoder.finite_of_binary64 hsampleTime (hv.of_lookup hlookup)

theorem Environment.valid_of_ofToml {text : String} {env : Environment}
    (h : Environment.ofToml text = .ok env) : env.Valid := by
  obtain ⟨entries, -, h⟩ := bind_eq_ok.1 h
  obtain ⟨-, hdecode⟩ := andThen_eq_ok.1 h
  exact (of_decode (mapError_eq_ok.1 hdecode)).1

namespace Context

/-- The module that a build prepares. -/
def unprepared (metadata : Metadata) (settings : ModelSettings) (env : Environment)
    (model : ModelClass) (types : TypeTable) : Module where
  name := metadata.name
  doc := Description.resolve settings.description.description metadata.description
  version := Description.resolve settings.description.version metadata.version
  author := Description.resolve settings.description.author metadata.author
  license := settings.description.resolveLicense
  modelClass := model
  types := types
  env := env

variable {metadata : Metadata} {settings : ModelSettings} {env : Environment}
  {sources headers : List String} {context : Context}

theorem build_eq_ok : build metadata settings env sources headers = .ok context ↔
    ∃ model, modelClass metadata
        (Description.resolve settings.description.description metadata.description) = .ok model ∧
      ∃ definitions, metadata.structs.mapM MetadataStruct.toDefinition = .ok definitions ∧
      ∃ types, TypeTable.make definitions model.identifier = .ok types ∧
      (∃ order, types.dependencyOrder = .ok order) ∧
      ∃ module, (unprepared metadata settings env model types).prepare = .ok module ∧
        ⟨sources, headers, module⟩ = context := by
  unfold build
  simp only [bind_eq_ok, exists_and_right, exists_ok_iff, discard_eq_ok, pure, Except.pure,
    Except.ok.injEq]
  rfl

/-- What a build gives, from metadata and an environment that were read. -/
theorem of_build (hsampleTime : ∃ negative rank, metadata.sampleTime = .finite negative rank)
    (henv : env.Valid) (h : build metadata settings env sources headers = .ok context) :
    context.module.Valid ∧ context.module.env.scalars = env.scalars ∧
      context.module.env.parameter = env.parameter ∧
      ∀ gym, env.gym = some gym → ∀ s ∈ gym.scalars, s.isNan = false := by
  obtain ⟨model, hmodel, definitions, -, types, htypes, -, module, hprepare, rfl⟩ := build_eq_ok.1 h
  obtain ⟨hcheck, -, rfl⟩ := Module.prepare_eq_ok.1 hprepare
  obtain ⟨fields, -, rfl⟩ := map_eq_ok.1 hmodel
  obtain ⟨_, rfl⟩ := TypeTable.make_eq_ok.1 htypes
  obtain ⟨hvalid, hscalars, hparameter⟩ := Environment.expand_keeps
    (unprepared metadata settings env _ _) henv
  exact ⟨⟨hsampleTime, rfl, hvalid⟩, hscalars, hparameter,
    Environment.isNan_of_check henv hcheck⟩

/-- In a context that was built only an initializer can hold what is no number. -/
theorem holdsNan_of_build (hsampleTime : ∃ negative rank, metadata.sampleTime = .finite negative rank)
    (henv : env.Valid) (h : build metadata settings env sources headers = .ok context) :
    context.module.env.holdsNan = false ↔ context.module.env.NumericParameters := by
  obtain ⟨-, hscalars, hparameter, hgym⟩ := of_build hsampleTime henv h
  rw [Environment.holdsNan_eq_false, hscalars, Environment.forall_mem_scalars, and_iff_right hgym,
    Environment.NumericParameters, hparameter]

end Context

end ModelBinding
