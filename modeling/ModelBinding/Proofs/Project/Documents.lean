import ModelBinding.Model.Settings
import ModelBinding.Proofs.Environment.Written

/-!
# The documents of a new project

A project starts with two documents: settings that have been checked, with whatever texts describe the
model, and the environment to start from. Both can be written, and are read back as they were.
-/
namespace ModelBinding

open Toml (Regular Unwritable)

variable {view : View} {depth : Nat}

namespace Solver

theorem decode_name (solver : Solver) : decode (.text solver.name) = .ok solver := by
  cases solver with
  | _ => rfl

end Solver

namespace ExportSettings

theorem decode_shown (settings : ExportSettings) : decode (view.shown false settings.toValue) = .ok settings := by
  apply Decoder.record_shown (by simp)
  refine .seq (.seq (.seq (.seq (.seq (.seq (.seq (.map mk ?solver) ?absoluteTime) ?integerCode) ?nonFinite)
    ?complex) ?continuousTime) ?variableSizeSignal) ?nonInlined
  case solver =>
    exact .required rfl (by decide) (fun h => nomatch h) (by rw [view.text]; exact Solver.decode_name _)
  case absoluteTime => exact .boolean rfl (by decide)
  case integerCode => exact .boolean rfl (by decide)
  case nonFinite => exact .boolean rfl (by decide)
  case complex => exact .boolean rfl (by decide)
  case continuousTime => exact .boolean rfl (by decide)
  case variableSizeSignal => exact .boolean rfl (by decide)
  case nonInlined => exact .boolean rfl (by decide)

theorem regular (settings : ExportSettings) : Regular (depth + 1) settings.toValue :=
  Toml.regular_ofEntries (by simp)

theorem not_unwritable (settings : ExportSettings) : ¬ Unwritable settings.toValue := by
  rw [toValue, Toml.unwritable_ofEntries (by simp)]
  simp

end ExportSettings

namespace CodeNames

theorem decode_shown (names : CodeNames) : decode (view.shown false names.toValue) = .ok names := by
  apply Decoder.record_shown (by simp)
  refine .seq (.map mk ?className) ?codeNamespace
  case className => exact .text rfl (by decide)
  case codeNamespace => exact .text rfl (by decide)

theorem regular (names : CodeNames) : Regular (depth + 1) names.toValue := Toml.regular_ofEntries (by simp)

theorem not_unwritable (names : CodeNames) : ¬ Unwritable names.toValue := by
  rw [toValue, Toml.unwritable_ofEntries (by simp)]
  simp

end CodeNames

namespace Description

/-- Whatever texts describe a model come back. -/
theorem decode_shown (d : Description) : decode (view.shown false d.toValue) = .ok d := by
  apply Decoder.record_shown (by simp)
  refine .seq (.seq (.seq (.map mk ?description) ?version) ?author) ?license
  case description => exact .text rfl (by decide)
  case version => exact .text rfl (by decide)
  case author => exact .text rfl (by decide)
  case license => exact .text rfl (by decide)

theorem regular (d : Description) : Regular (depth + 1) d.toValue := Toml.regular_ofEntries (by simp)

theorem not_unwritable (d : Description) : ¬ Unwritable d.toValue := by
  rw [toValue, Toml.unwritable_ofEntries (by simp)]
  simp

end Description

namespace ModelSettings

/-- The entries that settings are written with. -/
def fields (settings : ModelSettings) : List (String × Value) := [
  ("model", .text settings.model),
  ("simulink", settings.generation.toValue),
  ("cpp", settings.code.toValue),
  ("info", settings.description.toValue)]

theorem nodup_fields (settings : ModelSettings) : (settings.fields.map Prod.fst).Nodup := by
  simp [fields]

theorem decode_of_shows {settings : ModelSettings} {entries : List (String × Value)}
    (h : Shows view settings.fields entries) : decode (.table entries) = .ok settings := by
  refine Decoder.record_eq_ok.2 ⟨entries, rfl, ?_⟩
  refine Record.Recovers.seq (.seq (.seq (.map mk ?model) ?generation) ?code) ?description entries h
  case model => exact .text rfl (by decide)
  case generation => exact .required rfl (by decide) (fun h => nomatch h) settings.generation.decode_shown
  case code => exact .required rfl (by decide) (fun h => nomatch h) settings.code.decode_shown
  case description => exact .required rfl (by decide) (fun h => nomatch h) settings.description.decode_shown

theorem regular (settings : ModelSettings) : Regular (depth + 2) (.ofEntries settings.fields) :=
  Toml.regular_ofEntries
    (by simp [fields, settings.generation.regular, settings.code.regular, settings.description.regular])

/-- Settings always have a text, and it is read back if the names can be used. -/
theorem exists_toToml (settings : ModelSettings) : ∃ text, settings.toToml = .ok text ∧
    (settings.validate = .ok () → ofToml text = .ok settings) := by
  have hwritable : ¬ ∃ entry ∈ settings.fields, Unwritable entry.2 := by
    simp [fields, settings.generation.not_unwritable, settings.code.not_unwritable,
      settings.description.not_unwritable]
  obtain ⟨text, hwrite, hread⟩ := Toml.exists_text settings.regular settings.nodup_fields
    (by simp [fields, versionKey]) hwritable fun entries hshows => decode_of_shows hshows
  refine ⟨text, hwrite, fun hvalid => ?_⟩
  rw [ofToml, hread]
  change (settings.validate >>= fun _ => pure settings) = _
  rw [hvalid]
  rfl

end ModelSettings

namespace Environment

theorem default_valid : default.Valid where
  scalars := by
    refine forall_mem_scalars.2 ⟨fun gym hgym s hs => ?_, List.forall_mem_nil _⟩
    cases hgym
    exact (Gym.default_exact s hs).1
  gym := rfl
  range gym hgym := by
    cases hgym
    exact ⟨rfl, rfl⟩

theorem exists_toToml_default : ∃ text, default.toToml = .ok text ∧ ofToml text = .ok default :=
  exists_toToml default_valid (by decide +kernel)

end Environment

end ModelBinding
