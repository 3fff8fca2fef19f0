import ModelBinding.Proofs.Context.Fields
import ModelBinding.Proofs.Environment.Roles

/-!
# Initial values of parameters

Which initializers go with the parameters of a model, and what is reported of those that do not. The
initializers are checked in the order of their keys, so of several that do not go with the model the one
with the smallest key is reported. The elements of an array are counted in a word of 64 bits: where there
are too many for it, the numbers that a list has to have are not as many as the elements.
-/
namespace ModelBinding

namespace Bound

variable {bound : Bound} {field : Field}

/--
One number goes with every field. A list goes only with an array of plain elements, where it has one
number or as many as there are elements, or rather as many as a word of 64 bits says that there are.
-/
inductive Suits (field : Field) : Bound → Prop where
  | scalar (value : Scalar) : Suits field (.scalar value)
  | single (hmode : field.mode = .plainArray) (value : Scalar) : Suits field (.each [value])
  | each {raw : List UInt64} {values : List Scalar} (hmode : field.mode = .plainArray)
    (hraw : field.rawShape = some raw) (hlength : values.length = (raw.map UInt64.toNat).prod % 2 ^ 64) :
    Suits field (.each values)

theorem suits_of_not_isSequence (h : bound.isSequence = false) : bound.Suits field := by
  cases bound with
  | scalar value => exact .scalar value
  | each values => cases h

theorem Suits.plainArray (h : bound.Suits field) (hlist : bound.isSequence = true) :
    field.mode = .plainArray := by
  cases h with
  | scalar value => cases hlist
  | single hmode value => exact hmode
  | each hmode hraw hlength => exact hmode

theorem isSequence_of_not_suits (h : ¬ bound.Suits field) : bound.isSequence = true :=
  Bool.eq_true_of_not_eq_false fun hscalar => h (suits_of_not_isSequence hscalar)

theorem suits_plainArray (hmode : field.mode = .plainArray) :
    bound.Suits field ↔ bound.length = 1 ∨ bound.length = field.count.toNat := by
  rw [field.toNat_count]
  constructor
  · intro h
    cases h with
    | scalar value => exact .inl rfl
    | single _ value => exact .inl rfl
    | each _ hraw hlength =>
      rw [Field.size_of_rawShape hraw]
      exact .inr hlength
  · intro h
    cases bound with
    | scalar value => exact .scalar value
    | each values =>
      have hsingle : values.length = 1 → (Bound.each values).Suits field := by
        intro hone
        obtain ⟨value, rfl⟩ := List.length_eq_one_iff.1 hone
        exact .single hmode value
      rcases h with hone | hcount
      · exact hsingle hone
      · cases hraw : field.rawShape with
        | none =>
          rw [Field.size_of_no_rawShape hraw] at hcount
          exact hsingle hcount
        | some raw =>
          rw [Field.size_of_rawShape hraw] at hcount
          exact .each hmode hraw hcount

end Bound

namespace Initializer

variable {init : Initializer} {field : Field} {error : Error}

/-! ## Initializers of a field -/

/-- Code sets every field; anything else sets no struct, and bounds have to go with the field. -/
inductive Suits (field : Field) : Initializer → Prop where
  | custom (code : String) : Suits field (.custom code)
  | seed (hmode : field.mode.isStruct = false) : Suits field .seed
  | constant (hmode : field.mode.isStruct = false) (value : Scalar) : Suits field (.constant value)
  | uniform {low high : Bound} (hmode : field.mode.isStruct = false) (hlow : low.Suits field)
    (hhigh : high.Suits field) : Suits field (.uniform low high)

/-- What is wrong with an initializer for a field. Of two bounds that do not go with it the low one counts. -/
inductive Mismatch (field : Field) : Initializer → InitializerFlaw → Prop where
  | struct {init : Initializer} (hcode : init.isCustom = false) (hmode : field.mode.isStruct = true) :
    Mismatch field init .structNeedsCode
  | notScalar {low high : Bound} (hmode : field.mode.isStruct = false) (hplain : field.mode ≠ .plainArray)
    (hlist : low.isSequence = true ∨ high.isSequence = true) :
    Mismatch field (.uniform low high) .boundNotScalar
  | low {low high : Bound} (hmode : field.mode = .plainArray) (hlow : ¬ low.Suits field) :
    Mismatch field (.uniform low high) (.boundLength .low low.length field.count.toNat)
  | high {low high : Bound} (hmode : field.mode = .plainArray) (hlow : low.Suits field)
    (hhigh : ¬ high.Suits field) :
    Mismatch field (.uniform low high) (.boundLength .high high.length field.count.toNat)

theorem check_of_suits (h : init.Suits field) : init.check field = .ok () := by
  cases h with
  | custom code => rfl
  | seed hmode => simp [check, isCustom, hmode]
  | constant hmode value => simp [check, isCustom, hmode]
  | uniform hmode hlow hhigh =>
    by_cases hplain : field.mode = .plainArray
    · rw [Bound.suits_plainArray hplain] at hlow hhigh
      simp [check, checkLength, isCustom, FieldMode.isStruct, hplain, hlow, hhigh, bind, Except.bind]
    · have hscalar : ∀ {bound : Bound}, bound.Suits field → bound.isSequence = false :=
        fun h => Bool.eq_false_of_not_eq_true fun hlist => hplain (h.plainArray hlist)
      simp [check, isCustom, hmode, hplain, hscalar hlow, hscalar hhigh]

theorem check_of_mismatch {flaw : InitializerFlaw} (h : init.Mismatch field flaw) :
    init.check field = .error (.initializer field.name flaw) := by
  cases h with
  | struct hcode hmode => simp [check, hcode, hmode]
  | notScalar hmode hplain hlist => simp [check, isCustom, hmode, hplain, hlist]
  | low hmode hlow =>
    rw [Bound.suits_plainArray hmode] at hlow
    simp [check, checkLength, isCustom, FieldMode.isStruct, hmode, hlow, bind, Except.bind]
  | high hmode hlow hhigh =>
    rw [Bound.suits_plainArray hmode] at hlow hhigh
    simp [check, checkLength, isCustom, FieldMode.isStruct, hmode, hlow, hhigh, bind, Except.bind]

/-- There is nothing between going with a field and being wrong for it. -/
theorem suits_or_mismatch (init : Initializer) (field : Field) :
    init.Suits field ∨ ∃ flaw, init.Mismatch field flaw := by
  cases hcode : init.isCustom with
  | true =>
    cases init with
    | custom code => exact .inl (.custom code)
    | _ => cases hcode
  | false =>
    cases hmode : field.mode.isStruct with
    | true => exact .inr ⟨_, .struct hcode hmode⟩
    | false =>
      cases init with
      | seed => exact .inl (.seed hmode)
      | constant value => exact .inl (.constant hmode value)
      | custom code => cases hcode
      | uniform low high =>
        by_cases hlow : low.Suits field
        · by_cases hhigh : high.Suits field
          · exact .inl (.uniform hmode hlow hhigh)
          · by_cases hplain : field.mode = .plainArray
            · exact .inr ⟨_, .high hplain hlow hhigh⟩
            · exact .inr ⟨_, .notScalar hmode hplain (.inr (Bound.isSequence_of_not_suits hhigh))⟩
        · by_cases hplain : field.mode = .plainArray
          · exact .inr ⟨_, .low hplain hlow⟩
          · exact .inr ⟨_, .notScalar hmode hplain (.inl (Bound.isSequence_of_not_suits hlow))⟩

/-! ## Initializers of parameters -/

/-- A key that names no field and is set by code. -/
def IsCodeKey (key : String) : Prop := key.toList.head? = some '@'

instance (key : String) : Decidable (IsCodeKey key) := inferInstanceAs (Decidable (_ = _))

/-- The initializer of a key goes with the type of the parameters. -/
inductive Fits (parameters : TypeDefinition) (key : String) (init : Initializer) : Prop where
  | code (hkey : IsCodeKey key) (h : init.isCustom = true)
  | field (hkey : ¬ IsCodeKey key) {field : Field} (hfield : parameters.LastNamed key field)
    (h : init.Suits field)

/-- What is reported of the initializer of a key that does not go with the type of the parameters. -/
inductive Refused (parameters : PlacedType) (key : String) (init : Initializer) : Error → Prop where
  | notCode (hkey : IsCodeKey key) (h : init.isCustom = false) :
    Refused parameters key init (.initializer key .codeOnly)
  | unknown (hkey : ¬ IsCodeKey key) (h : key ∉ parameters.definition.fieldNames) :
    Refused parameters key init (.parameterNotFound key parameters.name)
  | mismatch (hkey : ¬ IsCodeKey key) {field : Field} {flaw : InitializerFlaw}
    (hfield : parameters.definition.LastNamed key field) (h : init.Mismatch field flaw) :
    Refused parameters key init (.initializer key flaw)

variable {parameters : PlacedType} {key : String}

theorem checkParameter_eq (init : Initializer) (parameters : PlacedType) (key : String) :
    init.checkParameter parameters key =
      if IsCodeKey key then if init.isCustom then .ok () else .error (.initializer key .codeOnly)
      else match parameters.definition.field? key with
        | some field => init.check field
        | none => .error (.parameterNotFound key parameters.name) := rfl

theorem checkParameter_of_fits (h : init.Fits parameters.definition key) :
    init.checkParameter parameters key = .ok () := by
  cases h with
  | code hkey h => simp [checkParameter_eq, hkey, h]
  | field hkey hfield h =>
    rw [checkParameter_eq, if_neg hkey, TypeDefinition.field?_eq_some.2 hfield]
    exact check_of_suits h

theorem checkParameter_of_refused (h : init.Refused parameters key error) :
    init.checkParameter parameters key = .error error := by
  cases h with
  | notCode hkey h => simp [checkParameter_eq, hkey, h]
  | unknown hkey h =>
    have hnone : parameters.definition.field? key = none := by
      rwa [← Option.not_isSome_iff_eq_none, TypeDefinition.isSome_field?]
    rw [checkParameter_eq, if_neg hkey, hnone]
  | mismatch hkey hfield h =>
    rw [checkParameter_eq, if_neg hkey, TypeDefinition.field?_eq_some.2 hfield]
    obtain ⟨_, _, -, rfl, -⟩ := hfield
    exact check_of_mismatch h

theorem fits_or_refused (init : Initializer) (parameters : PlacedType) (key : String) :
    init.Fits parameters.definition key ∨ ∃ error, init.Refused parameters key error := by
  by_cases hkey : IsCodeKey key
  · cases hcode : init.isCustom with
    | true => exact .inl (.code hkey hcode)
    | false => exact .inr ⟨_, .notCode hkey hcode⟩
  · cases hfield : parameters.definition.field? key with
    | none =>
      have hunknown : key ∉ parameters.definition.fieldNames := by
        rw [← TypeDefinition.isSome_field?, hfield]
        exact Bool.false_ne_true
      exact .inr ⟨_, .unknown hkey hunknown⟩
    | some field =>
      have hlast := TypeDefinition.field?_eq_some.1 hfield
      rcases suits_or_mismatch init field with h | ⟨flaw, h⟩
      · exact .inl (.field hkey hlast h)
      · exact .inr ⟨_, .mismatch hkey hlast h⟩

theorem checkParameter_eq_ok :
    init.checkParameter parameters key = .ok () ↔ init.Fits parameters.definition key := by
  refine ⟨fun hok => ?_, checkParameter_of_fits⟩
  rcases fits_or_refused init parameters key with h | ⟨error, h⟩
  · exact h
  · cases hok.symm.trans (checkParameter_of_refused h)

theorem checkParameter_eq_error :
    init.checkParameter parameters key = .error error ↔ init.Refused parameters key error := by
  refine ⟨fun herror => ?_, checkParameter_of_refused⟩
  rcases fits_or_refused init parameters key with h | ⟨error, h⟩
  · cases herror.symm.trans (checkParameter_of_fits h)
  · cases herror.symm.trans (checkParameter_of_refused h)
    exact h

end Initializer

/-- Of ordered entries that are checked one after the other, the smallest key that fails is reported. -/
theorem forM_eq_error_of_keyOrdered {α ε : Type} {entries : List (String × α)}
    {f : String × α → Except ε PUnit} {e : ε} (h : KeyOrdered entries) :
    forM entries f = .error e ↔ ∃ entry ∈ entries, f entry = .error e ∧
      ∀ other ∈ entries, f other ≠ .ok () → entry.1 ≤ other.1 := by
  rw [forM_eq_error]
  constructor
  · rintro ⟨before, entry, after, rfl, hbefore, herror⟩
    refine ⟨entry, by simp, herror, fun other hother hfails => ?_⟩
    have hafter := (List.pairwise_cons.1 (List.pairwise_append.1 h).2.1).1
    rcases List.mem_append.1 hother with hmem | hmem
    · exact absurd (hbefore other hmem) hfails
    · rcases List.mem_cons.1 hmem with rfl | hmem
      · exact String.le_refl _
      · exact fun hlt => String.lt_irrefl _ (String.lt_trans hlt (hafter other hmem))
  · rintro ⟨entry, hmem, herror, hleast⟩
    obtain ⟨before, after, rfl⟩ := List.append_of_mem hmem
    refine ⟨before, entry, after, rfl, fun other hother => ?_, herror⟩
    have hlt : other.1 < entry.1 := (List.pairwise_append.1 h).2.2 other hother entry List.mem_cons_self
    by_contra hfails
    exact hleast other (List.mem_append_left _ hother) hfails hlt

namespace Environment

variable {env : Environment} {module : Module} {inputs outputs parameters : PlacedType}

/-- An environment whose roles and gym view pass is left with the check of its parameters. -/
theorem check_eq_forM (huse : env.useGym = true ∨ env.useRaw = true)
    (hinputs : module.roleType Role.externalInputs = .ok inputs)
    (houtputs : module.roleType Role.externalOutputs = .ok outputs)
    (hparameters : module.roleType Role.instanceParameters = .ok parameters)
    (hgym : ∀ gym, env.activeGym = some gym → gym.check inputs outputs = .ok ()) :
    env.check module =
      forM env.parameter.entries fun entry => entry.2.checkParameter parameters entry.1 := by
  have hused : (!env.useGym && !env.useRaw) = false := by
    rcases huse with h | h <;> simp [h]
  rw [check, if_neg (ne_true_of_eq_false hused), Module.filledRole_eq_ok.2 hinputs,
    Module.filledRole_eq_ok.2 houtputs, Module.filledRole_eq_ok.2 hparameters]
  cases hactive : env.activeGym with
  | none => rfl
  | some gym =>
    change (gym.check inputs outputs >>= fun _ => _) = _
    rw [hgym gym hactive]
    rfl

end Environment

namespace Pendulum

/-- The parameters of a pendulum: a number, a row of three numbers, and a joint. -/
def gains : TypeDefinition := ⟨"Gains", "", .root, .fields [
  .plain "damping", ⟨"gain", "", .plainArray, some [1, 3], none, by decide⟩,
  ⟨"joint", "", .struct, none, some "Motion", by decide⟩]⟩

/-- The pendulum with its gains as parameters, which are given initial values. -/
def tuned (parameter : TextMap Initializer) : Module where
  name := "Pendulum"
  doc := ""
  version := ""
  author := ""
  license := ""
  modelClass := {
    name := "Pendulum", doc := "", codeNamespace := "", identifier := "Pendulum"
    sampleTime := .zero false
    methods := [], fields := [], fieldMapping := .empty
    typeMapping := ⟨[(Role.externalInputs, "Drive"), (Role.externalOutputs, "Motion"),
      (Role.instanceParameters, "Gains")], by decide⟩ }
  types := ⟨"Pendulum", [drive, motion, gains], by decide⟩
  env := ⟨false, true, false, false, false, some watched, .default, parameter⟩

def steps (values : List Int64) : Bound := .each (values.map .int)

/-- Initial values that all go with the gains. -/
def tuning : TextMap Initializer := ⟨[
  ("@noise", .custom "noise()"), ("damping", .uniform (.scalar (.int 0)) (.scalar (.int 1))),
  ("gain", .uniform (steps [0, 1, 2]) (steps [9])), ("joint", .custom "joint()")], by decide⟩

/-- Initial values with a bound of the wrong length, and with a seed for a struct. -/
def mistuning : TextMap Initializer := ⟨[
  ("@noise", .custom "noise()"), ("gain", .uniform (.scalar (.int 0)) (steps [1, 2])),
  ("joint", .seed)], by decide⟩

theorem lastNamed_gain : gains.LastNamed "gain" ⟨"gain", "", .plainArray, some [1, 3], none, by decide⟩ :=
  TypeDefinition.field?_eq_some.1 (by decide)

/-- Gains of which there are 2 ^ 64, which is one more than a word can count. -/
def immense : TypeDefinition := ⟨"Gains", "", .root, .fields [
  ⟨"gain", "", .plainArray, some [4294967296, 4294967296], none, by decide⟩]⟩

/-- The document of an environment whose bounds give no number to any of them. -/
def untuningDocument : Value := .table [
  ("parameter", .table [("gain", .table [
    ("high", .sequence []), ("low", .sequence []), ("type", .text "uniform")])]),
  ("use_gym", .boolean false), ("use_raw", .boolean true), ("use_rng", .boolean false),
  ("use_vec", .boolean false), ("vec_parallel", .boolean false)]

def untuning : TextMap Initializer := ⟨[("gain", .uniform (steps []) (steps []))], by decide⟩

def untuned : Module :=
  { tuned untuning with
    types := ⟨"Pendulum", [drive, motion, immense], by decide⟩
    env := ⟨true, false, false, false, false, none, .default, untuning⟩ }

end Pendulum

end ModelBinding
