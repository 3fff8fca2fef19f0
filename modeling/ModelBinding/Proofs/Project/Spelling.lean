import ModelBinding.Proofs.Context.RoundTrip
import ModelBinding.Proofs.Files.Components
import ModelBinding.Proofs.Project.Build

/-!
# Spellings of a directory

Two paths can lead to one directory, and then what is below it is the same for both. The search for
sources finds the same from both; but it spells what it finds without a `.` at the front, and looks for
the directory as that was spelled. So a directory that is spelled with a `.` at the front loses all of its
sources, and any other spelling keeps them.
-/
namespace ModelBinding

open FileTree

namespace Path

/-- A path that is spelled with a `.` at the front. -/
def LeadsWithDot (path : String) : Prop := (components path).head? = some "."

instance (path : String) : Decidable (LeadsWithDot path) := inferInstanceAs (Decidable (_ = _))

variable {directory name path first : String} {rest : List String}

theorem relative?_append (directory names : List String) :
    relative? directory (directory ++ names) = some names := by
  induction directory with
  | nil => rfl
  | cons part directory ih => rw [List.cons_append, relative?, if_pos rfl, ih]

theorem withoutLeadingDot_of_head? {names : List String} (h : names.head? ≠ some ".") :
    withoutLeadingDot names = names := by
  unfold withoutLeadingDot
  split
  · exact absurd rfl h
  · rfl

/-- What is below a directory is not found under a spelling with a `.` that the path has not. -/
theorem relative?_of_dot (h : components path = "." :: rest) (names : List String) (hne : rest ≠ []) :
    relative? (components path) (rest ++ names) = none := by
  obtain ⟨part, rest', rfl⟩ := List.exists_cons_of_ne_nil hne
  rw [h, List.cons_append, relative?, if_neg (ne_dot_of_components h List.mem_cons_self).symm]

end Path

namespace FileTree

variable {tree : FileTree} {first second name : String}

/-- Two paths to one place, from which all that is below is reached alike. -/
structure Alike (tree : FileTree) (first second : String) : Prop where
  first_ne : first ≠ ""
  second_ne : second ≠ ""
  locate : tree.locate first = tree.locate second
  folder : tree.folder first = tree.folder second

theorem Alike.join (h : tree.Alike first second) (name : String) :
    tree.Alike (Path.join first name) (Path.join second name) where
  first_ne := Path.join_ne_empty_of_ne h.first_ne name
  second_ne := Path.join_ne_empty_of_ne h.second_ne name
  locate := by
    rw [locate_join_of_ne tree h.first_ne, locate_join_of_ne tree h.second_ne, h.folder]
  folder := by
    rw [folder_join_of_ne tree h.first_ne, folder_join_of_ne tree h.second_ne, h.folder]

/-- A name leads to one place from all paths to its directory. -/
theorem alike_join (h : tree.folder first = tree.folder second) (hname : Path.IsFileName name) :
    tree.Alike (Path.join first name) (Path.join second name) where
  first_ne := Path.join_ne_empty first hname.isPart
  second_ne := Path.join_ne_empty second hname.isPart
  locate := by
    rw [locate_join tree first hname.isPart, locate_join tree second hname.isPart, h]
  folder := by
    rw [folder_join tree first hname.isPart, folder_join tree second hname.isPart, h]

theorem Alike.kind? (h : tree.Alike first second) : tree.kind? first = tree.kind? second := by
  unfold FileTree.kind?
  rw [h.locate]

theorem Alike.listing (h : tree.Alike first second) : tree.listing first = tree.listing second := by
  unfold FileTree.listing names
  rw [h.locate]

theorem Alike.read (h : tree.Alike first second) : tree.read first = tree.read second := by
  unfold FileTree.read
  rw [h.locate]

theorem Alike.write (h : tree.Alike first second) (text : String) :
    tree.write first text = tree.write second text := by
  unfold FileTree.write writeBytes
  rw [h.locate]

/-- Writing a file changes nothing about the places of directories. -/
theorem folder_of_write {tree' : FileTree} {path text directory : String} {place : Place}
    (h : tree.write path text = .ok tree') :
    tree'.folder directory = .ok place ↔ tree.folder directory = .ok place := by
  obtain ⟨written, -, hnode, rfl⟩ := write_eq_ok.1 h
  exact foldlM_step_put hnode _ _ _

theorem folder_eq_of_write {tree' : FileTree} {path text : String} {place : Place}
    (h : tree.write path text = .ok tree') (hplace : tree.folder first = .ok place)
    (hfolder : tree.folder first = tree.folder second) : tree'.folder first = tree'.folder second := by
  rw [(folder_of_write h).2 hplace, (folder_of_write h).2 (hfolder ▸ hplace)]

/-- Where one text can be written, any other can. -/
theorem exists_write {tree' : FileTree} {path text : String} (h : tree.write path text = .ok tree')
    (text' : String) : ∃ tree'', tree.write path text' = .ok tree'' := by
  obtain ⟨place, hplace, hnode, -⟩ := write_eq_ok.1 h
  exact ⟨_, write_eq_ok.2 ⟨place, hplace, hnode, rfl⟩⟩

/-- Whether more can be written does not depend on the text that was. -/
theorem exists_write_after {mid mid' tree' : FileTree} {path other text text' : String}
    (h : tree.write path text = .ok mid) (h' : tree.write path text' = .ok mid')
    (hother : mid.write other second = .ok tree') (first : String) :
    ∃ tree'', mid'.write other first = .ok tree'' := by
  obtain ⟨place, hplace, hnode, hmid⟩ := write_eq_ok.1 hother
  have hplace' := (locate_of_write h').2 ((locate_of_write h).1 hplace)
  refine ⟨_, write_eq_ok.2 ⟨place, hplace', ?_, rfl⟩⟩
  by_cases hwritten : tree.locate path = .ok place
  · obtain ⟨_, hpath, hfile, rfl⟩ := write_eq_ok.1 h'
    obtain rfl := Except.ok.inj (hpath.symm.trans hwritten)
    rw [node?_put_self tree _ (ne_root_of_node? hfile)]
    exact fun hdirectory => nomatch hdirectory
  · rw [node?_of_write h' hwritten, ← node?_of_write h hwritten]
    exact hnode

end FileTree

namespace Sources

variable {tree : FileTree} {first second : String}

theorem filesIn_of_alike (h : tree.Alike first second) (suffix : String) :
    filesIn tree suffix first = filesIn tree suffix second := by
  unfold filesIn
  rw [h.listing]
  exact List.filter_congr fun name _ => by rw [(h.join name).kind?]

/-- What is found does not depend on how the directory is spelled. -/
theorem foundIn_of_alike (h : tree.Alike first second) : foundIn tree first = foundIn tree second := by
  unfold foundIn nestedIn
  rw [filesIn_of_alike h, filesIn_of_alike h, h.listing]
  simp only [filesIn_of_alike (h.join _)]

/-- The paths of the sources below a directory, from there. -/
def pathsIn (tree : FileTree) (directory : String) : List String :=
  (foundIn tree directory).map fun names => forwardSlashes (Path.ofComponents names)

end Sources

namespace Project

variable {tree tree' : FileTree} {project other : Project}

theorem leadsWithDot_modelDirectory (project : Project) :
    Path.LeadsWithDot project.modelDirectory ↔ Path.LeadsWithDot project.workdir := by
  have hcomponents := Path.components_join project.workdir isFileName_modelDirectoryName
  unfold Path.LeadsWithDot
  rw [modelDirectory, path, hcomponents]
  cases Path.components project.workdir with
  | nil => exact iff_of_false (by decide) (fun h => nomatch h)
  | cons part rest => exact Iff.rfl

/-- Of what is found, a project keeps all or nothing. -/
theorem relative?_modelDirectory (project : Project) (names : List String) :
    Sources.relative? project.modelDirectory names =
      if Path.LeadsWithDot project.workdir then none
      else some (Sources.forwardSlashes (Path.ofComponents names)) := by
  unfold Sources.relative?
  dsimp only
  by_cases hdot : Path.LeadsWithDot project.modelDirectory
  · rw [if_pos ((leadsWithDot_modelDirectory project).1 hdot)]
    obtain ⟨rest, hrest⟩ := List.head?_eq_some_iff.1 hdot
    have hne : rest ≠ [] := by
      rintro rfl
      have hjoin := Path.components_join project.workdir isFileName_modelDirectoryName
      have hlast := congrArg List.getLast? (hjoin.symm.trans hrest)
      rw [List.getLast?_concat] at hlast
      exact absurd hlast (by decide)
    have hnone := Path.relative?_of_dot hrest names hne
    rw [hrest] at hnone ⊢
    exact congrArg (Option.map _) hnone
  · rw [if_neg fun h => hdot ((leadsWithDot_modelDirectory project).2 h),
      Path.withoutLeadingDot_of_head? hdot, Path.relative?_append]
    rfl

/-- What the search gives a project. -/
def discovered (tree : FileTree) (project : Project) : List String :=
  if Path.LeadsWithDot project.workdir then [] else Sources.pathsIn tree project.modelDirectory

theorem run_discoverSources (tree : FileTree) (project : Project) :
    tree.run project.discoverSources = (.ok (project.discovered tree), tree) := by
  unfold discoverSources discovered
  rw [Sources.run_discover, Prod.mk.injEq, and_iff_left rfl, Except.ok.injEq]
  simp only [relative?_modelDirectory]
  split_ifs
  · exact List.filterMap_eq_nil_iff.2 fun _ _ => rfl
  · exact congrFun List.filterMap_eq_map _

section

variable (h : tree.folder project.workdir = tree.folder other.workdir)
include h

theorem pathsIn_of_folder : Sources.pathsIn tree project.modelDirectory =
    Sources.pathsIn tree other.modelDirectory :=
  congrArg (List.map _) (Sources.foundIn_of_alike (alike_join h isFileName_modelDirectoryName))

/-- Two spellings give the same sources if both have a `.` at the front or neither has. -/
theorem discovered_eq_iff : project.discovered tree = other.discovered tree ↔
    Sources.pathsIn tree project.modelDirectory = [] ∨
      (Path.LeadsWithDot project.workdir ↔ Path.LeadsWithDot other.workdir) := by
  unfold discovered
  rw [pathsIn_of_folder h]
  by_cases hdot : Path.LeadsWithDot project.workdir
  · by_cases hdot' : Path.LeadsWithDot other.workdir
    · simp [hdot, hdot']
    · rw [if_pos hdot, if_neg hdot', eq_comm]
      simp [hdot, hdot']
  · by_cases hdot' : Path.LeadsWithDot other.workdir
    · simp [hdot, hdot']
    · simp [hdot, hdot']

end

/-! ## Building from another spelling -/

end Project

namespace Context

variable {metadata : Metadata} {settings : ModelSettings} {env : Environment}
  {sources headers : List String} {context other : Context}

/-- The sources have no say in whether a context can be built, or in the rest of it. -/
theorem build_with_sources (h : build metadata settings env sources headers = .ok context)
    (sources' : List String) : context.sources = sources ∧
      build metadata settings env sources' headers = .ok { context with sources := sources' } := by
  obtain ⟨model, hmodel, definitions, hdefinitions, types, htypes, horder, module, hmodule, rfl⟩ :=
    build_eq_ok.1 h
  exact ⟨rfl, build_eq_ok.2
    ⟨model, hmodel, definitions, hdefinitions, types, htypes, horder, module, hmodule, rfl⟩⟩

/-- The document of a context tells its sources. -/
theorem reads_sources (context : Context) (mode : DumpMode) : ∃ entries, context.document mode = .table entries ∧
    (Record.required "sources" (.sequence .text)).Reads entries context.sources := by
  obtain ⟨entries, hentries, hshows⟩ := context.exists_shows_document mode .nearest
  rw [Value.mapFloats_eq_self Json.reread_nearest] at hentries
  have hsources : (Record.required "sources" (.sequence .text)).Recovers (.dump mode .nearest)
      context.fields context.sources :=
    .required rfl (by decide) (fun h => by cases h) (Decoder.sequence_texts_shown context.sources)
  exact ⟨entries, hentries, hsources entries hshows⟩

theorem sources_eq_of_dump {mode : DumpMode} (h : context.module.env.Valid)
    (hother : other.module.env.Valid) (heq : context.dump mode = other.dump mode) :
    context.sources = other.sources := by
  have hparse := Json.parse?_spreadText_nearest (legible_document h mode)
  have hparse' := Json.parse?_spreadText_nearest (legible_document hother mode)
  have hdocument : context.document mode = other.document mode := by
    rw [dump, dump] at heq
    rw [heq, hparse'] at hparse
    exact (Option.some.inj hparse).symm
  obtain ⟨entries, hentries, hread⟩ := context.reads_sources mode
  obtain ⟨entries', hentries', hread'⟩ := other.reads_sources mode
  rw [hdocument, hentries'] at hentries
  cases hentries
  rw [Record.Reads] at hread hread'
  rw [hread] at hread'
  exact FieldResult.found.inj hread'

end Context

namespace Project

variable {tree tree' : FileTree} {project other : Project} {context : Context} {debug : Bool}

section

variable (h : tree.folder project.workdir = tree.folder other.workdir)
include h

theorem alike_path {name : String} (hname : Path.IsFileName name) :
    tree.Alike (project.path name) (other.path name) := alike_join h hname

theorem run_assemble_of_folder (hassemble : tree.run project.assemble = (.ok context, tree)) :
    context.sources = project.discovered tree ∧ tree.run other.assemble =
      (.ok { context with sources := other.discovered tree }, tree) := by
  obtain ⟨-, settings, env, metadata, sources, ⟨settingsText, hsettings, hsettings'⟩,
    ⟨envText, henv, henv'⟩, ⟨metadataText, hmetadata, hmetadata'⟩, hsources, hbuild⟩ :=
    run_assemble_eq_ok.1 hassemble
  rw [run_discoverSources, Prod.mk.injEq, and_iff_left rfl, Except.ok.injEq] at hsources
  obtain ⟨hcontext, hother⟩ := Context.build_with_sources hbuild (other.discovered tree)
  refine ⟨hcontext.trans hsources.symm, run_assemble_eq_ok.2 ⟨rfl, settings, env, metadata,
    other.discovered tree, ⟨settingsText, ?_, hsettings'⟩, ⟨envText, ?_, henv'⟩,
    ⟨metadataText, ?_, hmetadata'⟩, run_discoverSources tree other, hother⟩⟩
  · rw [← hsettings]
    exact (alike_path h isFileName_settingsName).read.symm
  · rw [← henv]
    exact (alike_path h isFileName_environmentName).read.symm
  · rw [← hmetadata]
    exact (alike_path h isFileName_metadataName).read.symm

/-- In one directory every project can be built, or none. -/
theorem exists_run_build (hbuild : tree.run (project.build debug) = (.ok context, tree')) :
    ∃ tree'', tree.run (other.build debug) =
      (.ok { context with sources := other.discovered tree }, tree'') := by
  obtain ⟨hassemble, mid, hwrite, hrest⟩ := run_build_eq_ok.1 hbuild
  obtain ⟨-, hassemble'⟩ := run_assemble_of_folder h hassemble
  obtain ⟨mid', hwrite'⟩ := exists_write hwrite
    ({ context with sources := other.discovered tree }.dump .concise)
  have hother := (alike_path h isFileName_contextName).write
    ({ context with sources := other.discovered tree }.dump .concise)
  cases debug with
  | false =>
    exact ⟨mid', run_build_eq_ok.2 ⟨hassemble', mid', hother.symm.trans hwrite', rfl⟩⟩
  | true =>
    obtain ⟨place, hplace, -⟩ := write_eq_ok.1 hwrite
    obtain ⟨folder, hfolder, -⟩ := (locate_join_eq_ok isFileName_contextName).1 hplace
    obtain ⟨tree'', hdebug⟩ := exists_write_after hwrite hwrite' hrest
      ({ context with sources := other.discovered tree }.dump .debug)
    have hother' := (alike_path (folder_eq_of_write hwrite' hfolder h) isFileName_debugContextName).write
      ({ context with sources := other.discovered tree }.dump .debug)
    exact ⟨tree'', run_build_eq_ok.2
      ⟨hassemble', mid', hother.symm.trans hwrite', hother'.symm.trans hdebug⟩⟩

/-- With the same sources the same is built and the same is written. -/
theorem run_build_of_discovered_eq (hsame : project.discovered tree = other.discovered tree)
    (hbuild : tree.run (project.build debug) = (.ok context, tree')) :
    tree.run (other.build debug) = (.ok context, tree') := by
  obtain ⟨hassemble, mid, hwrite, hrest⟩ := run_build_eq_ok.1 hbuild
  obtain ⟨hsources, hassemble'⟩ := run_assemble_of_folder h hassemble
  have hcontext : { context with sources := other.discovered tree } = context := by
    rw [← hsame, ← hsources]
  rw [hcontext] at hassemble'
  have hwrite' := (alike_path h isFileName_contextName).write (context.dump .concise)
  refine run_build_eq_ok.2 ⟨hassemble', mid, hwrite'.symm.trans hwrite, ?_⟩
  cases debug with
  | false => exact hrest
  | true =>
    obtain ⟨place, hplace, -⟩ := write_eq_ok.1 hwrite
    obtain ⟨folder, hfolder, -⟩ := (locate_join_eq_ok isFileName_contextName).1 hplace
    exact ((alike_path (folder_eq_of_write hwrite hfolder h) isFileName_debugContextName).write
      (context.dump .debug)).symm.trans hrest

/-- After a build the two spellings still lead to one directory. -/
theorem folder_of_build (hbuild : tree.run (project.build debug) = (.ok context, tree')) :
    tree'.folder project.workdir = tree'.folder other.workdir := by
  obtain ⟨-, mid, hwrite, hrest⟩ := run_build_eq_ok.1 hbuild
  obtain ⟨place, hplace, -⟩ := write_eq_ok.1 hwrite
  obtain ⟨folder, hfolder, -⟩ := (locate_join_eq_ok isFileName_contextName).1 hplace
  have hmid := folder_eq_of_write hwrite hfolder h
  cases debug with
  | false =>
    cases hrest
    exact hmid
  | true => exact folder_eq_of_write hrest ((folder_of_write hwrite).2 hfolder) hmid

end

theorem env_valid_of_build (hbuild : tree.run (project.build debug) = (.ok context, tree')) :
    context.module.env.Valid := by
  obtain ⟨hassemble, -⟩ := run_build_eq_ok.1 hbuild
  obtain ⟨-, settings, env, metadata, sources, -, ⟨_, -, henv⟩, ⟨_, -, hmetadata⟩, -, hcontext⟩ :=
    run_assemble_eq_ok.1 hassemble
  exact (Context.of_build (Metadata.finite_of_ofJson hmetadata) (Environment.valid_of_ofToml henv)
    hcontext).1.env

/--
Two projects in one directory, however each is spelled. The search gives both the same sources exactly if
there are none, or if both spellings begin with a `.` or neither does; a spelling that does is given no
sources at all. If one of them can be built so can the other: what is built differs in the sources only,
and the same documents are written exactly if these are the same.
-/
theorem discovered_of_same_directory (tree : FileTree) {project other : Project}
    (h : tree.folder project.workdir = tree.folder other.workdir) :
    tree.run project.discoverSources = (.ok (project.discovered tree), tree) ∧
    tree.run other.discoverSources = (.ok (other.discovered tree), tree) ∧
    (project.discovered tree = other.discovered tree ↔
      Sources.pathsIn tree project.modelDirectory = [] ∨
        (Path.LeadsWithDot project.workdir ↔ Path.LeadsWithDot other.workdir)) ∧
    ∀ debug context tree', tree.run (project.build debug) = (.ok context, tree') →
      context.sources = project.discovered tree ∧ ∃ tree'',
        tree.run (other.build debug) =
          (.ok { context with sources := other.discovered tree }, tree'') ∧
        (tree'' = tree' ↔ project.discovered tree = other.discovered tree) := by
  refine ⟨run_discoverSources tree project, run_discoverSources tree other, discovered_eq_iff h,
    fun debug context tree' hbuild => ?_⟩
  obtain ⟨hassemble, -⟩ := run_build_eq_ok.1 hbuild
  obtain ⟨hsources, -⟩ := run_assemble_of_folder h hassemble
  obtain ⟨tree'', hother⟩ := exists_run_build h hbuild
  refine ⟨hsources, tree'', hother, fun hsame => ?_, fun hsame => ?_⟩
  · have hread := (files_of_build hbuild).2
    have hread' := (files_of_build hother).2
    rw [hsame, ← (alike_path (folder_of_build h hbuild) isFileName_contextName).read] at hread'
    have hdump := Except.ok.inj (hread.symm.trans hread')
    rw [← hsources]
    exact Context.sources_eq_of_dump (env_valid_of_build hbuild) (env_valid_of_build hother) hdump
  · have hbuild' := run_build_of_discovered_eq h hsame hbuild
    rw [hother] at hbuild'
    exact congrArg Prod.snd hbuild'

/-- A project directory with one source. -/
def sourceTree : FileTree where
  workingDirectory := []
  nodes := [(["P"], .directory), (["P", "model"], .directory), (["P", "model", "m.cpp"], .file .empty)]

theorem sourceTree_discovered : sourceTree.folder "P" = sourceTree.folder "/P/." ∧
    discovered sourceTree ⟨"P"⟩ = discovered sourceTree ⟨"/P/."⟩ ∧
    sourceTree.run (discoverSources ⟨"/P/."⟩) = (.ok ["m.cpp"], sourceTree) := by
  have hfolder : sourceTree.folder "P" = sourceTree.folder "/P/." := rfl
  obtain ⟨-, hother, hsame, -⟩ := @discovered_of_same_directory sourceTree ⟨"P"⟩ ⟨"/P/."⟩ hfolder
  exact ⟨hfolder, hsame.2 (.inr (by decide)), hother⟩

/-- Spelled with a `.` at the front, the same directory has lost its source. -/
theorem sourceTree_lost : sourceTree.folder "./P" = sourceTree.folder "P" ∧
    sourceTree.run (discoverSources ⟨"./P"⟩) = (.ok [], sourceTree) ∧
    sourceTree.run (discoverSources ⟨"P"⟩) = (.ok ["m.cpp"], sourceTree) :=
  ⟨rfl, rfl, rfl⟩

end Project

end ModelBinding
