import ModelBinding.Proofs.Context.Built
import ModelBinding.Proofs.Files.Runs

/-!
# Building a project

What a build reads, what it writes, and what is in the directory afterwards. A directory with the
three documents and nothing else can be built.
-/
namespace ModelBinding

open FileTree

variable {tree tree' : FileTree}

namespace Project

theorem isFileName_settingsName : Path.IsFileName settingsName := by
  constructor <;> decide

theorem isFileName_environmentName : Path.IsFileName environmentName := by
  constructor <;> decide

theorem isFileName_metadataName : Path.IsFileName metadataName := by
  constructor <;> decide

theorem isFileName_contextName : Path.IsFileName contextName := by
  constructor <;> decide

theorem isFileName_debugContextName : Path.IsFileName debugContextName := by
  constructor <;> decide

theorem isFileName_modelDirectoryName : Path.IsFileName modelDirectoryName := by
  constructor <;> decide

variable {project : Project} {debug : Bool} {context : Context}

/-- A document that is read from a file. -/
theorem run_readText_bind {α : Type} (tree : FileTree) (path : String) (f : String → Except Error α) :
    tree.run (readText path >>= fun text => liftM (f text)) =
      ((tree.read path).mapError (Error.file path) >>= f, tree) := by
  cases h : tree.read path with
  | error fault =>
    rw [run_bind_of_error (e := Error.file path fault) (by rw [run_readText, h]; rfl)]
    rfl
  | ok text =>
    rw [run_bind_of_ok (a := text) (by rw [run_readText, h]; rfl), run_liftExcept]
    rfl

theorem run_readText_bind_eq_ok {α : Type} {path : String} {f : String → Except Error α} {a : α} :
    tree.run (readText path >>= fun text => liftM (f text)) = (.ok a, tree') ↔
      tree = tree' ∧ ∃ text, tree.read path = .ok text ∧ f text = .ok a := by
  rw [run_readText_bind, Prod.mk.injEq, bind_eq_ok, and_comm]
  simp only [mapError_eq_ok]

theorem run_loadContext {text : String} (h : tree.read (project.path contextName) = .ok text) :
    tree.run project.loadContext = (Context.ofJson text, tree) := by
  have hload := run_readText_bind tree (project.path contextName) Context.ofJson
  rw [h] at hload
  exact hload

/-- What a project is built from: the three documents, and sources that are found beside them. -/
theorem run_assemble_eq_ok : tree.run project.assemble = (.ok context, tree') ↔ tree = tree' ∧
    ∃ settings env metadata sources,
      (∃ text, tree.read (project.path settingsName) = .ok text ∧
        ModelSettings.ofToml text = .ok settings) ∧
      (∃ text, tree.read (project.path environmentName) = .ok text ∧
        Environment.ofToml text = .ok env) ∧
      (∃ text, tree.read (project.path metadataName) = .ok text ∧
        Metadata.ofJson text = .ok metadata) ∧
      tree.run project.discoverSources = (.ok sources, tree) ∧
      Context.build metadata settings env sources metadata.headers = .ok context := by
  have hread : ∀ {α : Type} {path : String} {f : String → Except Error α} {a : α} {mid : FileTree},
      tree.run (readText path >>= fun text => liftM (f text)) = (.ok a, mid) ↔
        tree = mid ∧ ∃ text, tree.read path = .ok text ∧ f text = .ok a := run_readText_bind_eq_ok
  constructor
  · intro h
    obtain ⟨settings, _, hload, h⟩ := run_bind_eq_ok.1 h
    obtain ⟨rfl, hsettings⟩ := hread.1 hload
    obtain ⟨env, _, hload, h⟩ := run_bind_eq_ok.1 h
    obtain ⟨rfl, henv⟩ := hread.1 hload
    obtain ⟨metadata, _, hload, h⟩ := run_bind_eq_ok.1 h
    obtain ⟨rfl, hmetadata⟩ := hread.1 hload
    obtain ⟨sources, mid, hsources, h⟩ := run_bind_eq_ok.1 h
    have hmid : mid = tree := (Sources.readOnly_discover project.modelDirectory).tree_eq hsources
    rw [hmid] at hsources h
    rw [run_liftExcept, Prod.mk.injEq] at h
    exact ⟨h.2, settings, env, metadata, sources, hsettings, henv, hmetadata, hsources, h.1⟩
  · rintro ⟨rfl, settings, env, metadata, sources, hsettings, henv, hmetadata, hsources, hbuild⟩
    refine run_bind_eq_ok.2 ⟨settings, tree, hread.2 ⟨rfl, hsettings⟩, ?_⟩
    refine run_bind_eq_ok.2 ⟨env, tree, hread.2 ⟨rfl, henv⟩, ?_⟩
    refine run_bind_eq_ok.2 ⟨metadata, tree, hread.2 ⟨rfl, hmetadata⟩, ?_⟩
    refine run_bind_eq_ok.2 ⟨sources, tree, hsources, ?_⟩
    rw [run_liftExcept, hbuild]

/-- A build assembles the context from the tree and then writes one document, or two. -/
theorem run_build_eq_ok : tree.run (project.build debug) = (.ok context, tree') ↔
    tree.run project.assemble = (.ok context, tree) ∧ ∃ mid,
      tree.write (project.path contextName) (context.dump .concise) = .ok mid ∧
      if debug then mid.write (project.path debugContextName) (context.dump .debug) = .ok tree'
      else mid = tree' := by
  unfold build
  rw [run_bind_eq_ok]
  constructor
  · rintro ⟨assembled, _, hassemble, h⟩
    obtain rfl := (readOnly_assemble project).tree_eq hassemble
    obtain ⟨_, mid, hwrite, h⟩ := run_bind_eq_ok.1 h
    cases debug with
    | false =>
      cases h
      exact ⟨hassemble, _, run_writeText_eq_ok.1 hwrite, rfl⟩
    | true =>
      obtain ⟨_, last, hdebug, h⟩ := run_bind_eq_ok.1 h
      cases h
      exact ⟨hassemble, mid, run_writeText_eq_ok.1 hwrite, run_writeText_eq_ok.1 hdebug⟩
  · rintro ⟨hassemble, mid, hwrite, h⟩
    refine ⟨context, tree, hassemble, run_bind_eq_ok.2 ⟨(), mid, run_writeText_eq_ok.2 hwrite, ?_⟩⟩
    cases debug with
    | false =>
      cases h
      rfl
    | true => exact run_bind_eq_ok.2 ⟨(), tree', run_writeText_eq_ok.2 h, rfl⟩

/-- A build leaves the settings there and the concise document to be read. -/
theorem files_of_build (h : tree.run (project.build debug) = (.ok context, tree')) :
    tree'.kind? (project.path settingsName) = some .regular ∧
      tree'.read (project.path contextName) = .ok (context.dump .concise) := by
  obtain ⟨hassemble, mid, hwrite, hrest⟩ := run_build_eq_ok.1 h
  obtain ⟨-, _, _, _, _, ⟨_, hread, -⟩, -⟩ := run_assemble_eq_ok.1 hassemble
  have hsettings := kind?_of_write_beside isFileName_contextName isFileName_settingsName (by decide)
    hwrite (kind?_of_read hread)
  have hcontext := read_of_write hwrite
  cases debug with
  | false =>
    cases hrest
    exact ⟨hsettings, hcontext⟩
  | true =>
    exact ⟨kind?_of_write_beside isFileName_debugContextName isFileName_settingsName (by decide)
        hrest hsettings,
      read_of_write_beside isFileName_debugContextName isFileName_contextName (by decide)
        hrest hcontext⟩

/-! ## A directory without sources -/

/-- The directory that we are in, with three documents and nothing else. -/
def bareTree (settings env metadata : String) : FileTree where
  workingDirectory := []
  nodes := [([settingsName], .file settings.toUTF8), ([environmentName], .file env.toUTF8),
    ([metadataName], .file metadata.toUTF8)]

variable {settingsText envText metadataText : String}

theorem locate_bareTree {name : String} (h : Path.IsFileName name) :
    (bareTree settingsText envText metadataText).locate (path ⟨"."⟩ name) = .ok [name] :=
  (locate_join_eq_ok h).2 ⟨[], rfl, rfl, rfl⟩

theorem read_bareTree {name text : String} (h : Path.IsFileName name)
    (hnode : (bareTree settingsText envText metadataText).node? [name] = some (.file text.toUTF8)) :
    (bareTree settingsText envText metadataText).read (path ⟨"."⟩ name) = .ok text :=
  read_eq_ok.2 ⟨[name], text.toUTF8, locate_bareTree h, hnode, fromUTF8?_toUTF8 text⟩

/-- Three documents that go together are built without sources. -/
theorem run_build_bareTree {settings : ModelSettings} {env : Environment} {metadata : Metadata}
    (hsettings : ModelSettings.ofToml settingsText = .ok settings)
    (henv : Environment.ofToml envText = .ok env) (hmetadata : Metadata.ofJson metadataText = .ok metadata)
    (h : Context.build metadata settings env [] metadata.headers = .ok context) :
    (bareTree settingsText envText metadataText).run (build ⟨"."⟩ false) =
      (.ok context, (bareTree settingsText envText metadataText).put [contextName]
        (.file (context.dump .concise).toUTF8)) := by
  have hsources : (bareTree settingsText envText metadataText).run (discoverSources ⟨"."⟩) =
      (.ok [], bareTree settingsText envText metadataText) :=
    Sources.run_discover_of_no_directory rfl
  refine run_build_eq_ok.2 ⟨run_assemble_eq_ok.2 ⟨rfl, settings, env, metadata, [], ?_, ?_, ?_,
    hsources, h⟩, _, write_eq_ok.2 ⟨[contextName], locate_bareTree isFileName_contextName, ?_, rfl⟩,
    rfl⟩
  · exact ⟨settingsText, read_bareTree isFileName_settingsName rfl, hsettings⟩
  · exact ⟨envText, read_bareTree isFileName_environmentName rfl, henv⟩
  · exact ⟨metadataText, read_bareTree isFileName_metadataName rfl, hmetadata⟩
  · exact fun hnode => nomatch hnode

end Project

end ModelBinding
