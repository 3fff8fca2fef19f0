import ModelBinding.Binding.Summary
import ModelBinding.Proofs.Environment.Phases
import ModelBinding.Proofs.Types.Order

/-!
# Displaying a context

What a summary needs of a context: an order of its types, and literals for the range of the reward.
A context that was built has both, and all structs that it refers to are declared.
-/
namespace ModelBinding

namespace Gym

theorem rewardInitializer_congr {gym other : Gym} (h : gym.rewardRange = other.rewardRange) :
    gym.rewardInitializer = other.rewardInitializer := by
  unfold rewardInitializer
  rw [h]

end Gym

namespace Environment

theorem rewardInitializer_of_check {env : Environment} {module : Module} {gym : Gym}
    (hcheck : env.check module = .ok ()) (hgym : env.activeGym = some gym) :
    ∃ text, gym.rewardInitializer = .ok text := by
  obtain ⟨_, -, _, -, hgymCheck⟩ := check_activeGym hcheck hgym
  obtain ⟨-, -, -, -, -, -, -, -, hreward⟩ := Gym.check_eq_ok.1 hgymCheck
  exact hreward

/-- A gym view that is checked has literals for the range of its reward, also when it is filled. -/
theorem rewardInitializer_of_expand {env : Environment} {module : Module} (h : env.Valid)
    (hcheck : env.check module = .ok ()) {gym : Gym}
    (hgym : (env.expand module).1.activeGym = some gym) : ∃ text, gym.rewardInitializer = .ok text := by
  rcases expand_eq module h with hsame | ⟨g, filled, hg, hfilled, hrange, -⟩
  · rw [hsame] at hgym
    exact rewardInitializer_of_check hcheck hgym
  · rw [hfilled] at hgym
    obtain ⟨heq, huse⟩ := activeGym_eq_some.1 hgym
    cases heq
    rw [Gym.rewardInitializer_congr hrange]
    exact rewardInitializer_of_check hcheck (activeGym_eq_some.2 ⟨hg, huse⟩)

end Environment

namespace Context

variable {context : Context}

/-- What a summary of a context needs. -/
structure Displayable (context : Context) : Prop where
  order : ∃ order, context.module.types.dependencyOrder = .ok order
  reward : ∀ gym, context.module.env.activeGym = some gym → ∃ text, gym.rewardInitializer = .ok text

theorem Displayable.compactSummary (h : context.Displayable) :
    ∃ text, context.compactSummary = .ok text := by
  obtain ⟨order, horder⟩ := h.order
  exact ⟨_, bind_eq_ok.2 ⟨order, horder, rfl⟩⟩

theorem environmentLines_of_displayable (h : context.Displayable) :
    ∃ text, environmentLines context.module.env = .ok text := by
  unfold environmentLines
  cases hgym : context.module.env.activeGym with
  | none => exact ⟨_, rfl⟩
  | some gym =>
    obtain ⟨reward, hreward⟩ := h.reward gym hgym
    have hlines : ∃ text, gymLines gym = .ok text :=
      ⟨_, bind_eq_ok.2 ⟨reward, mapError_eq_ok.2 hreward, rfl⟩⟩
    obtain ⟨lines, hlines⟩ := hlines
    exact ⟨_, bind_eq_ok.2 ⟨lines, hlines, rfl⟩⟩

theorem Displayable.prettySummary (h : context.Displayable) :
    ∃ text, context.prettySummary = .ok text := by
  obtain ⟨order, horder⟩ := h.order
  obtain ⟨environment, henvironment⟩ := environmentLines_of_displayable h
  have htypes : ∃ text, typeLines context.module.types = .ok text :=
    ⟨_, map_eq_ok.2 ⟨order, horder, rfl⟩⟩
  obtain ⟨types, htypes⟩ := htypes
  exact ⟨_, bind_eq_ok.2 ⟨types, htypes, bind_eq_ok.2 ⟨environment, henvironment, rfl⟩⟩⟩

theorem displayable_of_build {metadata : Metadata} {settings : ModelSettings} {env : Environment}
    {sources headers : List String} (henv : env.Valid)
    (h : build metadata settings env sources headers = .ok context) : context.Displayable := by
  obtain ⟨model, -, definitions, -, types, -, horder, module, hprepare, rfl⟩ := build_eq_ok.1 h
  obtain ⟨hcheck, -, rfl⟩ := Module.prepare_eq_ok.1 hprepare
  exact ⟨horder, fun gym hgym => Environment.rewardInitializer_of_expand henv hcheck hgym⟩

/-- With its numbers as they are read from a text, a context can still be displayed. -/
theorem Displayable.reread (h : context.Displayable) (rounding : Rounding) :
    (context.reread rounding).Displayable where
  order := h.order
  reward gym hgym := by
    obtain ⟨hmapped, huse⟩ := Environment.activeGym_eq_some.1 hgym
    obtain ⟨source, hsource, rfl⟩ := Option.map_eq_some_iff.1 hmapped
    obtain ⟨text, htext⟩ := h.reward source (Environment.activeGym_eq_some.2 ⟨hsource, huse⟩)
    have hnan := Gym.isNan_of_rewardInitializer htext
    have hliteral : ∀ s ∈ source.rewardRange.scalars,
        ∃ text, Literal.floating (s.mapFloats (Json.reread rounding)) .float64 = .ok text :=
      fun s hs => Literal.exists_floating rfl ((Scalar.isNan_mapFloats_reread rounding s).trans (hnan s hs))
    obtain ⟨low, hlow⟩ := hliteral _ List.mem_cons_self
    obtain ⟨high, hhigh⟩ := hliteral _ (List.mem_cons_of_mem _ List.mem_cons_self)
    exact ⟨_, bind_eq_ok.2 ⟨low, hlow, bind_eq_ok.2 ⟨high, hhigh, rfl⟩⟩⟩

/-! ### What is built -/

/-- A prepared module has been checked, so whatever environment it had is fit to be displayed. -/
theorem displayable_of_prepare {module prepared : Module} (h : module.prepare = .ok prepared)
    (horder : ∃ order, module.types.dependencyOrder = .ok order) (sources headers : List String) :
    Displayable ⟨sources, headers, prepared⟩ where
  order := by
    obtain ⟨-, -, rfl⟩ := Module.prepare_eq_ok.1 h
    exact horder
  reward gym hgym := Environment.rewardInitializer_of_check (Module.check_of_prepare h) hgym

/--
What is built is not rejected later: its types have an order, a member that holds a struct names one
that is declared or `void`, and both summaries can be written. Members of the model class hold none.
-/
theorem summaries_of_build {metadata : Metadata} {settings : ModelSettings} {env : Environment}
    {sources headers : List String} {context : Context}
    (h : build metadata settings env sources headers = .ok context) :
    (∃ order, context.module.types.dependencyOrder = .ok order) ∧
    (∀ owner ∈ context.module.types.definitions, ∀ field ∈ owner.fields,
      field.mode.isStruct = true → ∃ target, field.typeName = some target ∧
        (target = "void" ∨ ∃ id, context.module.types.Resolves target id)) ∧
    (∀ field ∈ context.module.modelClass.fields, field.mode.isStruct = false) ∧
    (∃ text, context.compactSummary = .ok text) ∧ ∃ text, context.prettySummary = .ok text := by
  obtain ⟨model, hmodel, definitions, hdefinitions, types, htypes, ⟨order, horder⟩, module, hprepare,
    rfl⟩ := build_eq_ok.1 h
  have hdisplayable := displayable_of_prepare hprepare ⟨order, horder⟩ sources headers
  refine ⟨hdisplayable.order, ?_, ?_, hdisplayable.compactSummary, hdisplayable.prettySummary⟩
  · obtain ⟨-, -, rfl⟩ := Module.prepare_eq_ok.1 hprepare
    have hdangles := TypeTable.not_dangles_of_order horder
    intro owner howner field hfield hstruct
    obtain ⟨target, htarget, hholds⟩ := Field.holds_of_isStruct hstruct
    refine ⟨target, htarget, hholds.imp_right fun hholds => ?_⟩
    by_contra hnone
    exact hdangles ⟨owner, howner, field, hfield, target, hholds, not_exists.1 hnone⟩
  · obtain ⟨-, -, rfl⟩ := Module.prepare_eq_ok.1 hprepare
    obtain ⟨fields, hfields, rfl⟩ := map_eq_ok.1 hmodel
    intro field hfield
    obtain ⟨member, -, hmember⟩ := exists_of_mem_mapM hfields hfield
    rw [MetadataMember.mode_of_toModelField hmember]
    rfl

/-- The joint of a pendulum is declared, and a pendulum without a gym view of its own is displayed. -/
theorem pendulum_summaries_of_build :
    build Pendulum.metadata (.make "pendulum" "Pendulum" "") (Pendulum.gymEnv none) [] [] =
      .ok (Pendulum.context (some (Gym.default.withKeys Pendulum.positionalKeys))) ∧
    ∃ context, context = Pendulum.context (some (Gym.default.withKeys Pendulum.positionalKeys)) ∧
      (∃ order, context.module.types.dependencyOrder = .ok order) ∧
      (∃ id, context.module.types.Resolves "Joint" id) ∧
      (∃ text, context.compactSummary = .ok text) ∧ ∃ text, context.prettySummary = .ok text := by
  obtain ⟨horder, hdeclared, -, hcompact, hpretty⟩ := summaries_of_build Pendulum.build_context
  refine ⟨Pendulum.build_context, _, rfl, horder, ?_, hcompact, hpretty⟩
  obtain ⟨target, htarget, hvoid | hresolves⟩ :=
    hdeclared _ List.mem_cons_self Pendulum.joint (by decide) rfl
  · cases htarget
    exact absurd hvoid (by decide)
  · cases htarget
    exact hresolves

end Context

end ModelBinding
