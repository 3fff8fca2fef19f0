import ModelBinding.Command.Run
import ModelBinding.Proofs.Context.Displayed
import ModelBinding.Proofs.Context.Unreadable
import ModelBinding.Proofs.Project.Build
import ModelBinding.Proofs.Project.Documents

/-!
# Reading back what was built

The context that a build leaves behind is loaded and shown with its numbers as they are read, which the
reader of such documents takes for their neighbours now and then. Where an initializer of a parameter holds
what is no number, a context is built and written, and nothing can read it.
-/
namespace ModelBinding

open FileTree

variable {tree tree' : FileTree}

namespace Context

variable {metadata : Metadata} {settings : ModelSettings} {env : Environment}
  {sources headers : List String} {context : Context}

theorem ofJson_dump_of_build (hsampleTime : ∃ negative rank, metadata.sampleTime = .finite negative rank)
    (henv : env.Valid) (h : build metadata settings env sources headers = .ok context)
    (hnumeric : context.module.env.NumericParameters) (mode : DumpMode) (rounding : Rounding) :
    ofJson (context.dump mode) rounding = .ok (context.reread rounding) :=
  ofJson_dump (of_build hsampleTime henv h).1 ((holdsNan_of_build hsampleTime henv h).2 hnumeric) mode rounding

theorem error_of_not_numeric (h : context.module.env.Valid)
    (hnumeric : ¬ context.module.env.NumericParameters) (mode : DumpMode) (rounding : Rounding) :
    ∃ error, ofJson (context.dump mode) rounding = .error error := by
  rw [ofJson_dump_eq_decode h]
  cases hdecode : decode ((context.document mode).mapFloats (Json.reread rounding)) with
  | error fault => exact ⟨.json fault, rfl⟩
  | ok read => exact absurd (number_of_decode_document hdecode) hnumeric

end Context

namespace Project

theorem run_openAt {workdir : String}
    (h : tree.kind? (Path.join workdir settingsName) = some .regular) :
    tree.run (openAt workdir) = (.ok ⟨workdir⟩, tree) := by
  have hregular : tree.run (FileAccess.isRegular (path ⟨workdir⟩ settingsName) :
      ExceptT Error (StateM FileTree) Bool) = (.ok true, tree) := by
    rw [run_isRegular, path, h]
    rfl
  unfold openAt
  rw [run_bind_of_ok hregular]
  rfl

end Project

/-! ## Showing what was built -/

namespace Command

variable {context : Context}

theorem run_attempt {α : Type} (tree : FileTree) (action : ExceptT Error (StateM FileTree) α) :
    tree.run (attempt action) =
      ((tree.run action).1.mapError CommandError.failed, (tree.run action).2) := rfl

theorem run_attempt_of_ok {α : Type} {action : ExceptT Error (StateM FileTree) α} {a : α}
    (h : tree.run action = (.ok a, tree')) : tree.run (attempt action) = (.ok a, tree') := by
  rw [run_attempt, h]
  rfl

theorem run_attempt_of_error {α : Type} {action : ExceptT Error (StateM FileTree) α} {error : Error}
    (h : tree.run action = (.error error, tree')) :
    tree.run (attempt action) = (.error (.failed error), tree') := by
  rw [run_attempt, h]
  rfl

/-- The outcome of a command, and the tree that it leaves behind. -/
theorem run_run (tree : FileTree) (command : Command) (workdir : String) (debug : Bool) :
    (command.run workdir debug : StateM FileTree Outcome).run tree =
      match tree.run (command.output workdir debug) with
      | (.ok text, tree') => (⟨0, text, ""⟩, tree')
      | (.error error, tree') => (failure command.name debug error, tree') := by
  unfold run
  rw [StateT.run_bind]
  rcases h : tree.run (command.output workdir debug) with ⟨_ | text, tree'⟩
  · unfold FileTree.run at h
    rw [h]
    rfl
  · unfold FileTree.run at h
    rw [h]
    rfl

theorem exists_summary (h : context.Displayable) (format : SummaryFormat) :
    ∃ text, summary context format = .ok text := by
  cases format with
  | compact => exact h.compactSummary
  | pretty => exact h.prettySummary
  | json => exact ⟨_, rfl⟩

section

variable {workdir : String} (hsettings : tree.kind? (Path.join workdir Project.settingsName) =
  some .regular) (format : SummaryFormat) (debug : Bool)
include hsettings

/-- A context that can be loaded and displayed is shown. -/
theorem run_inspect_of_ok (hload : tree.run (Project.loadContext ⟨workdir⟩) = (.ok context, tree))
    (hdisplay : context.Displayable) : ∃ text, summary context format = .ok text ∧
      ((inspect format).run workdir debug : StateM FileTree Outcome).run tree =
        (⟨0, text ++ "\n", ""⟩, tree) := by
  obtain ⟨text, htext⟩ := exists_summary hdisplay format
  have hshow : tree.run (showContext workdir format) = (.ok (text ++ "\n"), tree) := by
    unfold showContext
    rw [run_bind_of_ok (run_attempt_of_ok (Project.run_openAt hsettings)),
      run_bind_of_ok (run_attempt_of_ok hload), htext]
    rfl
  refine ⟨text, htext, ?_⟩
  rw [run_run, output, hshow]

/-- A context that cannot be loaded is not shown. -/
theorem run_inspect_of_error {error : Error}
    (hload : tree.run (Project.loadContext ⟨workdir⟩) = (.error error, tree)) :
    ((inspect format).run workdir debug : StateM FileTree Outcome).run tree =
      (failure "inspect" debug (.failed error), tree) := by
  have hshow : tree.run (showContext workdir format) = (.error (.failed error), tree) := by
    unfold showContext
    rw [run_bind_of_ok (run_attempt_of_ok (Project.run_openAt hsettings)),
      run_bind_of_error (run_attempt_of_error hload)]
  rw [run_run, output, hshow]
  rfl

end

end Command

/-! ## A small project -/

namespace Sample

def settings : ModelSettings where
  model := "m"
  generation := ⟨.ode1, false, false, false, false, false, false, false⟩
  code := ⟨"C", ""⟩
  description := ⟨"", "", "", ""⟩

def settingsText : String := settings.toToml.toOption.getD ""

theorem ofToml_settingsText : ModelSettings.ofToml settingsText = .ok settings := by
  obtain ⟨text, hwrite, hread⟩ := settings.exists_toToml
  rw [settingsText, hwrite]
  exact hread rfl

/-- An environment with one parameter. -/
def env (value : Scalar) : Environment where
  useRaw := true
  useGym := false
  useRng := false
  useVec := false
  vecParallel := false
  gym := none
  reset := .default
  parameter := ⟨[("k", .constant value)], List.pairwise_singleton _ _⟩

def textOf (value : Scalar) : String := (env value).toToml.toOption.getD ""

def envText : String := textOf (.int 1)

/-- The same with a parameter that is no number. -/
def nanEnvText : String := textOf (.float .nan)

theorem ofToml_textOf {value : Scalar} (hcanonical : value.Canonical)
    (hwithin : ¬ (env value).Exceeds) : Environment.ofToml (textOf value) = .ok (env value) := by
  have hvalid : (env value).Valid :=
    ⟨List.forall_mem_singleton.2 hcanonical, rfl, fun gym hgym => nomatch hgym⟩
  obtain ⟨text, hwrite, hread⟩ := Environment.exists_toToml hvalid hwithin
  rw [textOf, hwrite]
  exact hread

theorem ofToml_envText : Environment.ofToml envText = .ok (env (.int 1)) :=
  ofToml_textOf trivial (by decide)

theorem ofToml_nanEnvText : Environment.ofToml nanEnvText = .ok (env (.float .nan)) :=
  ofToml_textOf (fun _ => nofun) (by decide)

def metadataValue : Value := .table [
  ("__version__", .text "1.0"),
  ("model_class", .table [
    ("identifier", .text "C"), ("name", .text "C"),
    ("type_mapping", .table [("external_inputs", .text "T"), ("external_outputs", .text "T"),
      ("instance_parameters", .text "T")])]),
  ("name", .text "m"),
  ("sample_time", .float Context.half),
  ("structs", .sequence [.table [
    ("fields", .sequence [.table [("mode", .text "plain"), ("name", .text "k")]]),
    ("location", .text "root"), ("name", .text "T")]])]

def metadataText : String := Json.spreadText metadataValue

def metadata : Metadata where
  name := "m"
  description := ""
  author := ""
  version := ""
  sampleTime := Context.half
  modelClass := ⟨"C", "", "C", [], [], .empty, ⟨[("external_inputs", "T"),
    ("external_outputs", "T"), ("instance_parameters", "T")], by decide⟩⟩
  structs := [⟨"T", .root, false, [⟨"k", some "plain", false, none, none, none, none⟩]⟩]

theorem mapFloats_metadataValue : metadataValue.mapFloats (Json.reread .bestEffort) = metadataValue := by
  simp only [metadataValue, Value.mapFloats, Value.mapItems, Value.mapEntries, Context.reread_half]

theorem ofJson_metadataText : Metadata.ofJson metadataText = .ok metadata := by
  have hlegible : metadataValue.Legible Json.maxDepth := by
    simp only [metadataValue, Context.half, Value.Legible, Value.LegibleItems, Value.LegibleEntries,
      Json.maxDepth, Binary64.finite.injEq, exists_and_left, exists_eq', and_true]
    decide
  rw [metadataText, Metadata.ofJson, Json.readVersioned, Json.parse, Json.parse?_spreadText hlegible,
    mapFloats_metadataValue]
  rfl

def context (value : Scalar) : Context where
  sources := []
  headers := ["m.h"]
  module := {
    name := "m", doc := "", version := "", author := "", license := ""
    modelClass := {
      name := "C", doc := "", codeNamespace := "", identifier := "C"
      sampleTime := Context.half
      methods := [], fields := [], fieldMapping := .empty
      typeMapping := ⟨[("external_inputs", "T"), ("external_outputs", "T"),
        ("instance_parameters", "T")], by decide⟩ }
    types := ⟨"C", [⟨"T", "", .root, .fields [.plain "k"]⟩], by decide⟩
    env := env value }

theorem build_eq_context (value : Scalar) :
    Context.build metadata settings (env value) [] metadata.headers = .ok (context value) := rfl

/-- The directory after a build. -/
def builtTree (envText : String) (value : Scalar) : FileTree :=
  (Project.bareTree settingsText envText metadataText).put [Project.contextName]
    (.file ((context value).dump .concise).toUTF8)

theorem run_build {envText : String} {value : Scalar}
    (h : Environment.ofToml envText = .ok (env value)) :
    (Project.bareTree settingsText envText metadataText).run (Project.build ⟨"."⟩ false) =
      (.ok (context value), builtTree envText value) :=
  Project.run_build_bareTree ofToml_settingsText h ofJson_metadataText (build_eq_context value)

theorem numericParameters_env {value : Scalar} (h : value.isNan = false) :
    (env value).NumericParameters := by
  intro init hinit s hs
  cases List.mem_singleton.1 hinit
  cases List.mem_singleton.1 hs
  exact h

end Sample

/-! ## Reading back -/

/--
If every initializer of a parameter is a number, a context that was built comes out of both its dumps, is
loaded from the directory and can be shown, with its numbers as they are read, which is as they were exactly
if the reader takes the text of each of them for the number itself. Otherwise nothing of this succeeds.
-/
theorem Project.reload_of_build {project : Project} {debug : Bool} {context : Context}
    (h : tree.run (project.build debug) = (.ok context, tree')) :
    (context.module.env.NumericParameters →
      (∀ mode, Context.ofJson (context.dump mode) = .ok (context.reread .bestEffort)) ∧
      tree'.run project.loadContext = (.ok (context.reread .bestEffort), tree') ∧
      ∀ format verbose, ∃ text, Command.summary (context.reread .bestEffort) format = .ok text ∧
        ((Command.inspect format).run project.workdir verbose : StateM FileTree Outcome).run tree' =
          (⟨0, text ++ "\n", ""⟩, tree')) ∧
    (context.reread .bestEffort = context ↔ ∀ x ∈ context.floats, Json.reread .bestEffort x = x) ∧
    (¬ context.module.env.NumericParameters →
      (∀ mode, ∃ error, Context.ofJson (context.dump mode) = .error error) ∧
      ∃ error, tree'.run project.loadContext = (.error error, tree') ∧
      ∀ format verbose,
        ((Command.inspect format).run project.workdir verbose : StateM FileTree Outcome).run tree' =
          (Command.failure "inspect" verbose (.failed error), tree')) := by
  obtain ⟨hassemble, -⟩ := run_build_eq_ok.1 h
  obtain ⟨-, settings, env, metadata, sources, -, ⟨_, -, henv⟩, ⟨_, -, hmetadata⟩, -, hbuild⟩ :=
    run_assemble_eq_ok.1 hassemble
  have hsampleTime := Metadata.finite_of_ofJson hmetadata
  have henvValid := Environment.valid_of_ofToml henv
  obtain ⟨hsettings, hread⟩ := files_of_build h
  have hload := run_loadContext hread
  refine ⟨fun hnumeric => ?numeric, Context.mapFloats_eq_self_iff, fun hnumeric => ?notNumeric⟩
  case numeric =>
    have hdump := fun mode => Context.ofJson_dump_of_build hsampleTime henvValid hbuild hnumeric mode .bestEffort
    rw [hdump .concise] at hload
    exact ⟨hdump, hload, fun format verbose => Command.run_inspect_of_ok hsettings format verbose hload
      ((Context.displayable_of_build henvValid hbuild).reread .bestEffort)⟩
  case notNumeric =>
    have hdump := fun mode => Context.error_of_not_numeric
      (Context.of_build hsampleTime henvValid hbuild).1.env hnumeric mode .bestEffort
    obtain ⟨error, herror⟩ := hdump .concise
    rw [herror] at hload
    exact ⟨hdump, error, hload, fun format verbose =>
      Command.run_inspect_of_error hsettings format verbose hload⟩

theorem Project.reload_sample :
    (bareTree Sample.settingsText Sample.envText Sample.metadataText).run (build ⟨"."⟩ false) =
      (.ok (Sample.context (.int 1)), Sample.builtTree Sample.envText (.int 1)) ∧
    (∀ mode, Context.ofJson ((Sample.context (.int 1)).dump mode) = .ok (Sample.context (.int 1))) ∧
    (Sample.builtTree Sample.envText (.int 1)).run (loadContext ⟨"."⟩) =
      (.ok (Sample.context (.int 1)), Sample.builtTree Sample.envText (.int 1)) ∧
    ∀ format verbose, ∃ text, Command.summary (Sample.context (.int 1)) format = .ok text ∧
      ((Command.inspect format).run "." verbose : StateM FileTree Outcome).run
          (Sample.builtTree Sample.envText (.int 1)) =
        (⟨0, text ++ "\n", ""⟩, Sample.builtTree Sample.envText (.int 1)) := by
  have hbuild := Sample.run_build Sample.ofToml_envText
  obtain ⟨hnumeric, hsame, -⟩ := reload_of_build hbuild
  have hreread : (Sample.context (.int 1)).reread .bestEffort = Sample.context (.int 1) :=
    hsame.2 (List.forall_mem_singleton.2 (Context.reread_half .bestEffort))
  have hreload := hnumeric (Sample.numericParameters_env rfl)
  rw [hreread] at hreload
  exact ⟨hbuild, hreload⟩

/-- What is no number is built and written, and the document cannot be read or shown. -/
theorem Project.not_reload_nan :
    (bareTree Sample.settingsText Sample.nanEnvText Sample.metadataText).run (build ⟨"."⟩ false) =
      (.ok (Sample.context (.float .nan)), Sample.builtTree Sample.nanEnvText (.float .nan)) ∧
    (∀ mode, Context.ofJson ((Sample.context (.float .nan)).dump mode) ≠
      .ok (Sample.context (.float .nan))) ∧
    ∃ error, (Sample.builtTree Sample.nanEnvText (.float .nan)).run (loadContext ⟨"."⟩) =
        (.error error, Sample.builtTree Sample.nanEnvText (.float .nan)) ∧
      ∀ format verbose, ((Command.inspect format).run "." verbose : StateM FileTree Outcome).run
          (Sample.builtTree Sample.nanEnvText (.float .nan)) =
        (Command.failure "inspect" verbose (.failed error),
          Sample.builtTree Sample.nanEnvText (.float .nan)) := by
  have hbuild := Sample.run_build Sample.ofToml_nanEnvText
  have hvalid : (Sample.env (.float .nan)).Valid := Environment.valid_of_ofToml Sample.ofToml_nanEnvText
  have hnumeric : ¬ (Sample.env (.float .nan)).NumericParameters := by
    intro h
    exact absurd (h _ List.mem_cons_self _ List.mem_cons_self) (by decide)
  have hdump := fun mode => @Context.error_of_not_numeric (Sample.context (.float .nan)) hvalid hnumeric mode
    .bestEffort
  obtain ⟨error, herror⟩ := hdump .concise
  obtain ⟨hsettings, hread⟩ := files_of_build hbuild
  have hload := run_loadContext hread
  rw [herror] at hload
  refine ⟨hbuild, fun mode hok => ?_, error, hload, fun format verbose =>
    Command.run_inspect_of_error hsettings format verbose hload⟩
  obtain ⟨error, herror⟩ := hdump mode
  rw [herror] at hok
  cases hok

end ModelBinding
