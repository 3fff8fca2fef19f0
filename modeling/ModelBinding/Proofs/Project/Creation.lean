import ModelBinding.Proofs.Files.Missing
import ModelBinding.Proofs.Project.Build
import ModelBinding.Proofs.Project.Discovery
import ModelBinding.Proofs.Project.Documents

/-!
# Setting up a project

A project is set up in a directory that is empty or lacking, with settings that can be used. What is set up
is read back as it was given, and is not set up again. Setting up fails without a trace, unless a directory
has been made above one that then cannot be.
-/
namespace ModelBinding

open FileTree

namespace FileTree

variable {tree : FileTree} {path directory name text : String} {place : Place} {names : List String}

theorem names_eq_ok : tree.names path = .ok names ↔ ∃ place, tree.locate path = .ok place ∧
    tree.node? place = some .directory ∧ tree.namesAt place = names := by
  unfold FileTree.names
  rw [bind_eq_ok]
  refine exists_congr fun place => and_congr_right fun _ => ?_
  cases tree.node? place with
  | none => simp [throw, throwThe, MonadExceptOf.throw]
  | some node => cases node <;> simp [pure, Except.pure, throw, throwThe, MonadExceptOf.throw]

theorem kind?_of_names (h : tree.names path = .ok names) : tree.kind? path = some .directory := by
  obtain ⟨place, hplace, hnode, -⟩ := names_eq_ok.1 h
  exact kind?_eq_some.2 ⟨place, .directory, hplace, hnode, rfl⟩

theorem mem_namesAt_of_node? {node : FileNode} (h : tree.node? (place ++ [name]) = some node) :
    name ∈ tree.namesAt place :=
  mem_namesAt_iff.2 (Option.ne_none_iff_exists'.2 ⟨node, h⟩)

/-- A name in a directory leads to the place below. -/
theorem HasDirectory.locate_join (h : tree.HasDirectory directory place) (hname : Path.IsFileName name) :
    tree.locate (Path.join directory name) = .ok (place ++ [name]) :=
  (locate_join_eq_ok hname).2 ⟨place, h.1, h.2, rfl⟩

theorem HasDirectory.kind?_join (h : tree.HasDirectory directory place) (hname : Path.IsFileName name) :
    tree.kind? (Path.join directory name) = (tree.node? (place ++ [name])).map kindOf := by
  rw [kind?, h.locate_join hname]

/-- A file can be written in a directory if its name is not that of a directory. -/
theorem HasDirectory.exists_write (h : tree.HasDirectory directory place) (hname : Path.IsFileName name) :
    (∃ tree', tree.write (Path.join directory name) text = .ok tree') ↔
      tree.kind? (Path.join directory name) ≠ some .directory := by
  have hkind : tree.kind? (Path.join directory name) = some .directory ↔
      tree.node? (place ++ [name]) = some .directory := by
    rw [h.kind?_join hname]
    cases tree.node? (place ++ [name]) with
    | none => simp
    | some node => cases node <;> simp [kindOf]
  rw [Ne, hkind]
  constructor
  · rintro ⟨tree', hwrite⟩
    obtain ⟨written, hplace, hnode, -⟩ := write_eq_ok.1 hwrite
    rw [h.locate_join hname] at hplace
    cases hplace
    exact hnode
  · exact fun hnode => ⟨_, write_eq_ok.2 ⟨_, h.locate_join hname, hnode, rfl⟩⟩

end FileTree

namespace Project

variable {tree left made : FileTree} {project : Project} {workdir text envText : String}
  {settings : ModelSettings} {place : Place}

/-! ## What is needed -/

/-- Nothing is in the directory of a project: there is none, or it is empty. -/
def Vacant (tree : FileTree) (project : Project) : Prop :=
  tree.kind? project.workdir = none ∨ tree.names project.workdir = .ok []

/-- A directory in which the documents of a project can be written. -/
structure Ready (tree : FileTree) (project : Project) : Prop where
  directory : tree.kind? project.workdir = some .directory
  settings : tree.kind? (project.path settingsName) ≠ some .directory
  environment : tree.kind? (project.path environmentName) ≠ some .directory

/-- A directory passes the check if it is empty; if not, the error tells whether it is a project. -/
theorem run_checkVacant_of_directory (hkind : tree.kind? project.workdir = some .directory) :
    tree.run project.checkVacant = (if tree.names project.workdir = .ok [] then .ok ()
      else .error (.workspace project.workdir
        (if tree.kind? (project.path settingsName) = some .regular then .alreadyInitialized else .hasContent)),
      tree) := by
  have hne := ne_empty_of_kind? hkind
  obtain ⟨place, hplace, hnode⟩ := (kind?_eq_directory hne).1 hkind
  have hnames := names_eq_ok.2 ⟨place, locate_of_folder hne hplace hnode, hnode, rfl⟩
  have hlist : tree.run (atPath project.workdir (tree.names project.workdir)) =
      (.ok (tree.namesAt place), tree) := by
    rw [hnames]
    rfl
  unfold checkVacant
  rw [run_bind_of_ok (@run_kind? Error tree project.workdir), hkind]
  dsimp only
  rw [run_bind_of_ok (@run_names Error tree project.workdir), run_bind_of_ok hlist, hnames]
  by_cases hempty : tree.namesAt place = []
  · rw [hempty]
    rfl
  · have hcontent : (Except.ok (tree.namesAt place) : Except FileFault _) ≠ .ok [] := fun heq =>
      hempty (Except.ok.inj heq)
    rw [if_neg hcontent, if_neg (by simpa using hempty), run_bind_of_ok (run_isRegular tree _)]
    by_cases hregular : tree.kind? (project.path settingsName) = some .regular
    · rw [if_pos hregular, if_pos (beq_iff_eq.2 hregular)]
      rfl
    · rw [if_neg hregular, if_neg (by simpa using hregular)]
      rfl

theorem run_checkVacant (tree : FileTree) (project : Project) : ∃ result,
    tree.run project.checkVacant = (result, tree) ∧ (result = .ok () ↔ project.Vacant tree) := by
  have hempty : ∀ kind, tree.kind? project.workdir = some kind →
      (project.Vacant tree ↔ tree.names project.workdir = .ok []) := by
    intro kind hkind
    rw [Vacant, hkind]
    exact or_iff_right (fun h => nomatch h)
  cases hkind : tree.kind? project.workdir with
  | none =>
    refine ⟨.ok (), ?_, iff_of_true rfl (.inl hkind)⟩
    unfold checkVacant
    rw [run_bind_of_ok (@run_kind? Error tree project.workdir), hkind]
    rfl
  | some kind =>
    rw [hempty kind hkind]
    cases kind with
    | regular =>
      refine ⟨.error (.workspace project.workdir .notADirectory), ?_, iff_of_false (fun h => nomatch h) fun h => ?_⟩
      · unfold checkVacant
        rw [run_bind_of_ok (@run_kind? Error tree project.workdir), hkind]
        rfl
      · have hdirectory := kind?_of_names h
        rw [hkind] at hdirectory
        cases hdirectory
    | directory =>
      rw [run_checkVacant_of_directory hkind]
      refine ⟨_, rfl, ?_⟩
      by_cases hnames : tree.names project.workdir = .ok []
      · exact iff_of_true (if_pos hnames) hnames
      · rw [if_neg hnames]
        exact iff_of_false (fun h => nomatch h) hnames

/-! ## What is done -/

/-- The documents are written into a directory that is ready for them, and only there. -/
theorem ready_iff (hkind : tree.kind? project.workdir = some .directory) (text envText : String) :
    project.Ready tree ↔ ∃ mid last, tree.write (project.path settingsName) text = .ok mid ∧
      mid.write (project.path environmentName) envText = .ok last := by
  obtain ⟨place, hplace⟩ := (kind?_eq_directory (ne_empty_of_kind? hkind)).1 hkind
  have hbeside : ∀ mid, tree.write (project.path settingsName) text = .ok mid →
      (mid.kind? (project.path environmentName) ≠ some .directory ↔
        tree.kind? (project.path environmentName) ≠ some .directory) := by
    intro mid hwrite
    have hmid := (keeps_of_write hwrite).hasDirectory hplace
    rw [path, hmid.kind?_join isFileName_environmentName, hplace.kind?_join isFileName_environmentName,
      node?_of_write_beside isFileName_settingsName isFileName_environmentName (by decide) hwrite
        (hplace.locate_join isFileName_environmentName)]
  constructor
  · intro hready
    obtain ⟨mid, hmid⟩ := (hplace.exists_write isFileName_settingsName).2 hready.settings
    obtain ⟨last, hlast⟩ := (((keeps_of_write hmid).hasDirectory hplace).exists_write
      isFileName_environmentName).2 ((hbeside mid hmid).2 hready.environment)
    exact ⟨mid, last, hmid, hlast⟩
  · rintro ⟨mid, last, hmid, hlast⟩
    refine ⟨hkind, (hplace.exists_write isFileName_settingsName).1 ⟨mid, hmid⟩, (hbeside mid hmid).1 ?_⟩
    exact (((keeps_of_write hmid).hasDirectory hplace).exists_write isFileName_environmentName).1 ⟨last, hlast⟩

/-- Without a vacant directory, or with names that cannot be used, nothing is done. -/
theorem run_create_of_not (h : ¬ (Vacant tree ⟨workdir⟩ ∧ settings.validate = .ok ())) :
    ∃ error, tree.run (create workdir settings) = (.error error, tree) := by
  obtain ⟨result, hcheck, hvacant⟩ := run_checkVacant tree ⟨workdir⟩
  unfold create
  cases result with
  | error error => exact ⟨error, run_bind_of_error hcheck⟩
  | ok =>
    have hvalidate := run_liftExcept tree settings.validate
    cases hvalid : settings.validate with
    | ok => exact absurd ⟨hvacant.1 rfl, hvalid⟩ h
    | error error =>
      rw [hvalid] at hvalidate
      exact ⟨error, (run_bind_of_ok hcheck).trans (run_bind_of_error hvalidate)⟩

/-- The two documents of a project, written one after the other. -/
def writeDocuments (project : Project) (text envText : String) : ExceptT Error (StateM FileTree) Project := do
  writeText (project.path settingsName) text
  writeText (project.path environmentName) envText
  return project

/-- Once the check is passed, the directory is made, and written into if it is there. -/
theorem run_create_of_vacant (hne : workdir ≠ "") (hvacant : Vacant tree ⟨workdir⟩)
    (hvalid : settings.validate = .ok ()) (hsettings : settings.toToml = .ok text)
    (henvironment : Environment.default.toToml = .ok envText) :
    if (tree.madeTo workdir).kind? workdir = some .directory then
      tree.run (create workdir settings) = (tree.madeTo workdir).run (writeDocuments ⟨workdir⟩ text envText)
    else ∃ error, tree.run (create workdir settings) = (.error error, tree.madeTo workdir) := by
  obtain ⟨result, hcheck, hresult⟩ := run_checkVacant tree ⟨workdir⟩
  obtain ⟨made, hmake, hmade⟩ := @run_makeDirectories workdir Error tree hne
  obtain rfl := hresult.2 hvacant
  unfold create
  rw [run_bind_of_ok hcheck, hvalid, run_bind_of_ok (run_liftExcept tree _), run_bind_of_ok hmake]
  cases made with
  | error fault =>
    rw [if_neg fun hkind => nomatch hmade.2 hkind]
    exact ⟨.file workdir fault, rfl⟩
  | ok =>
    rw [if_pos (hmade.1 rfl), hsettings, henvironment]
    rfl

theorem run_writeDocuments_eq_ok {other : Project} :
    tree.run (project.writeDocuments text envText) = (.ok other, made) ↔ project = other ∧ ∃ mid,
      tree.write (project.path settingsName) text = .ok mid ∧
      mid.write (project.path environmentName) envText = .ok made := by
  unfold writeDocuments
  rw [run_bind_eq_ok]
  constructor
  · rintro ⟨_, mid, hsettings, h⟩
    obtain ⟨_, last, henvironment, h⟩ := run_bind_eq_ok.1 h
    cases h
    exact ⟨rfl, mid, run_writeText_eq_ok.1 hsettings, run_writeText_eq_ok.1 henvironment⟩
  · rintro ⟨rfl, mid, hsettings, henvironment⟩
    exact ⟨(), mid, run_writeText_eq_ok.2 hsettings,
      run_bind_eq_ok.2 ⟨(), made, run_writeText_eq_ok.2 henvironment, rfl⟩⟩

/-- Also where writing fails no directory is lost. -/
theorem keeps_of_writeDocuments {error : Error}
    (h : tree.run (project.writeDocuments text envText) = (.error error, left)) : tree.Keeps left := by
  rcases run_bind_eq_error.1 h with hsettings | ⟨_, mid, hsettings, h⟩
  · obtain ⟨rfl, -⟩ := run_writeText_eq_error.1 hsettings
    exact .rfl
  · have hmid := keeps_of_write (run_writeText_eq_ok.1 hsettings)
    rcases run_bind_eq_error.1 h with henvironment | ⟨_, last, -, h⟩
    · obtain ⟨rfl, -⟩ := run_writeText_eq_error.1 henvironment
      exact hmid
    · cases h

theorem run_create_eq_ok (hne : workdir ≠ "") (hsettings : settings.toToml = .ok text)
    (henvironment : Environment.default.toToml = .ok envText) :
    tree.run (create workdir settings) = (.ok project, made) ↔
      project = ⟨workdir⟩ ∧ settings.validate = .ok () ∧ Vacant tree ⟨workdir⟩ ∧
      (tree.madeTo workdir).kind? workdir = some .directory ∧ ∃ mid,
        (tree.madeTo workdir).write (path ⟨workdir⟩ settingsName) text = .ok mid ∧
        mid.write (path ⟨workdir⟩ environmentName) envText = .ok made := by
  by_cases hcheck : Vacant tree ⟨workdir⟩ ∧ settings.validate = .ok ()
  · obtain ⟨hvacant, hvalid⟩ := hcheck
    have hrun := run_create_of_vacant hne hvacant hvalid hsettings henvironment
    split_ifs at hrun with hkind
    · rw [hrun, run_writeDocuments_eq_ok]
      simp [hvalid, hvacant, hkind, eq_comm]
    · obtain ⟨error, hrun⟩ := hrun
      rw [hrun]
      exact iff_of_false (fun h => nomatch h) fun h => hkind h.2.2.2.1
  · obtain ⟨error, hrun⟩ := run_create_of_not hcheck
    rw [hrun]
    exact iff_of_false (fun h => nomatch h) fun h => hcheck ⟨h.2.2.1, h.2.1⟩

/-- A project is set up exactly if its settings can be used and its directory is vacant and can be made ready. -/
theorem exists_create_iff (hne : workdir ≠ "") :
    (∃ project made, tree.run (create workdir settings) = (.ok project, made)) ↔
      settings.validate = .ok () ∧ Vacant tree ⟨workdir⟩ ∧ Ready (tree.madeTo workdir) ⟨workdir⟩ := by
  obtain ⟨text, hsettings, -⟩ := settings.exists_toToml
  obtain ⟨envText, henvironment, -⟩ := Environment.exists_toToml_default
  simp only [run_create_eq_ok hne hsettings henvironment]
  constructor
  · rintro ⟨_, made, rfl, hvalid, hvacant, hkind, mid, hmid, hmade⟩
    exact ⟨hvalid, hvacant, (ready_iff hkind text envText).2 ⟨mid, made, hmid, hmade⟩⟩
  · rintro ⟨hvalid, hvacant, hready⟩
    obtain ⟨mid, made, hmid, hmade⟩ := (ready_iff hready.directory text envText).1 hready
    exact ⟨_, made, rfl, hvalid, hvacant, hready.directory, mid, hmid, hmade⟩

/-! ## An empty directory -/

theorem ready_of_empty (hne : project.workdir ≠ "") (h : tree.HasDirectory project.workdir place)
    (hempty : ∀ name, tree.node? (place ++ [name]) = none) : project.Ready tree where
  directory := (kind?_eq_directory hne).2 ⟨place, h⟩
  settings := by
    rw [path, h.kind?_join isFileName_settingsName, hempty]
    exact fun h => nomatch h
  environment := by
    rw [path, h.kind?_join isFileName_environmentName, hempty]
    exact fun h => nomatch h

/-- An empty directory lacks nothing and is ready. -/
theorem ready_of_names (h : tree.names workdir = .ok []) :
    tree.madeTo workdir = tree ∧ Ready tree ⟨workdir⟩ := by
  have hkind := kind?_of_names h
  have hne := ne_empty_of_kind? hkind
  refine ⟨madeTo_eq_self hne fun above below hlacks => ?_, ?_⟩
  · rw [hlacks.kind?_eq_none] at hkind
    cases hkind
  · obtain ⟨place, hplace, hnode, hnames⟩ := names_eq_ok.1 h
    refine ready_of_empty hne ⟨folder_of_locate hplace, hnode⟩ fun name => ?_
    by_contra hnamed
    obtain ⟨node, hnamed⟩ := Option.ne_none_iff_exists'.1 hnamed
    have hmem := mem_namesAt_of_node? hnamed
    rw [hnames] at hmem
    cases hmem

/-! ## What is left -/

/-- A directory with settings in it is not vacant. -/
theorem names_ne_nil_of_read (hplace : tree.HasDirectory project.workdir place)
    (h : tree.read (project.path settingsName) = .ok text) : tree.names project.workdir ≠ .ok [] := by
  intro hempty
  obtain ⟨folder, hfolder, -, hnames⟩ := names_eq_ok.1 hempty
  obtain rfl := Except.ok.inj (hplace.1.symm.trans (folder_of_locate hfolder))
  obtain ⟨file, content, hfile, hnode, -⟩ := read_eq_ok.1 h
  rw [path, hplace.locate_join isFileName_settingsName] at hfile
  cases hfile
  have hmem := mem_namesAt_of_node? hnode
  rw [hnames] at hmem
  cases hmem

/-- What has been set up is a project with what it was given, and is not vacant. -/
theorem of_create (hne : workdir ≠ "") (h : tree.run (create workdir settings) = (.ok project, made)) :
    project = ⟨workdir⟩ ∧
    made.run (openAt workdir) = (.ok ⟨workdir⟩, made) ∧
    made.run (loadSettings ⟨workdir⟩) = (.ok settings, made) ∧
    made.run (loadEnvironment ⟨workdir⟩) = (.ok .default, made) ∧
    ∀ other, made.run (create workdir other) = (.error (.workspace workdir .alreadyInitialized), made) := by
  obtain ⟨text, hsettings, hofSettings⟩ := settings.exists_toToml
  obtain ⟨envText, henvironment, hofEnvironment⟩ := Environment.exists_toToml_default
  obtain ⟨rfl, hvalid, -, hkind, mid, hmid, hmade⟩ := (run_create_eq_ok hne hsettings henvironment).1 h
  obtain ⟨place, hplace⟩ := (kind?_eq_directory hne).1 hkind
  have hplace' := ((keeps_of_write hmid).trans (keeps_of_write hmade)).hasDirectory hplace
  have hread : made.read (path ⟨workdir⟩ settingsName) = .ok text :=
    read_of_write_beside isFileName_environmentName isFileName_settingsName (by decide) hmade (read_of_write hmid)
  have hregular := kind?_of_read hread
  refine ⟨rfl, ?_, run_readText_bind_eq_ok.2 ⟨rfl, text, hread, hofSettings hvalid⟩,
    run_readText_bind_eq_ok.2 ⟨rfl, envText, read_of_write hmade, hofEnvironment⟩, fun other => ?_⟩
  · unfold openAt
    rw [run_bind_of_ok (run_isRegular made _), hregular]
    rfl
  · have hcheck := @run_checkVacant_of_directory made ⟨workdir⟩ ((kind?_eq_directory hne).2 ⟨place, hplace'⟩)
    rw [if_neg (names_ne_nil_of_read hplace' hread), if_pos hregular] at hcheck
    exact run_bind_of_error hcheck

/-- Without a directory to be made above, a vacant directory is made ready or nothing is made at all. -/
theorem ready_of_not_lacks (hclosed : tree.Closed) (hne : workdir ≠ "") (hvacant : Vacant tree ⟨workdir⟩)
    (h : ∀ above below, below ≠ [] → ¬ tree.Lacks workdir above below) :
    Ready (tree.madeTo workdir) ⟨workdir⟩ ∨ tree.madeTo workdir = tree ∧ tree.kind? workdir = none := by
  rcases hvacant with hnone | hempty
  · rw [madeTo_of_not_lacks hne h]
    cases hmake : tree.makeDirectory workdir with
    | error fault => exact .inr ⟨withDirectory_of_error hmake, hnone⟩
    | ok made =>
      obtain ⟨place, hplace, hnode, -⟩ := (makeDirectory_eq_ok hne).1 hmake
      obtain ⟨hmade, hnothing⟩ := hclosed.new_directory hne hplace hnode
      exact .inl (ready_of_empty hne hmade hnothing)
  · obtain ⟨hself, hready⟩ := ready_of_names hempty
    exact .inl (hself.symm ▸ hready)

/-- Where no directory above is lacking, a failure leaves the tree as it was. -/
theorem tree_eq_of_create_error (hclosed : tree.Closed) (hne : workdir ≠ "") {error : Error}
    (h : tree.run (create workdir settings) = (.error error, left))
    (hnothing : settings.validate = .ok () → ∀ above below, below ≠ [] → ¬ tree.Lacks workdir above below) :
    left = tree := by
  by_cases hcheck : Vacant tree ⟨workdir⟩ ∧ settings.validate = .ok ()
  · obtain ⟨hvacant, hvalid⟩ := hcheck
    rcases ready_of_not_lacks hclosed hne hvacant (hnothing hvalid) with hready | ⟨hself, hnone⟩
    · obtain ⟨_, _, hok⟩ := (exists_create_iff hne).2 ⟨hvalid, hvacant, hready⟩
      rw [h] at hok
      cases hok
    · obtain ⟨text, hsettings, -⟩ := settings.exists_toToml
      obtain ⟨envText, henvironment, -⟩ := Environment.exists_toToml_default
      have hrun := run_create_of_vacant hne hvacant hvalid hsettings henvironment
      rw [hself, hnone, if_neg (fun h => nomatch h), h] at hrun
      obtain ⟨_, hrun⟩ := hrun
      exact (Prod.mk.inj hrun).2
  · obtain ⟨_, hrun⟩ := run_create_of_not hcheck
    rw [h] at hrun
    exact (Prod.mk.inj hrun).2

/-- What has been made above a directory is there whichever step fails. -/
theorem tree_ne_of_create_error (hne : workdir ≠ "") {error : Error}
    (h : tree.run (create workdir settings) = (.error error, left)) (hvalid : settings.validate = .ok ())
    {above below : List String} (hbelow : below ≠ []) (hlacks : tree.Lacks workdir above below) :
    left ≠ tree := by
  rintro rfl
  obtain ⟨text, hsettings, -⟩ := settings.exists_toToml
  obtain ⟨envText, henvironment, -⟩ := Environment.exists_toToml_default
  obtain ⟨place, hnode, hmade⟩ := hlacks.exists_made hne hbelow
  have hrun := run_create_of_vacant hne (.inl hlacks.kind?_eq_none) hvalid hsettings henvironment
  split_ifs at hrun
  · rw [h] at hrun
    have hkept := (keeps_of_writeDocuments hrun.symm).directory place hmade
    rw [hnode] at hkept
    cases hkept
  · obtain ⟨_, hrun⟩ := hrun
    rw [h] at hrun
    rw [← (Prod.mk.inj hrun).2, hnode] at hmade
    cases hmade

/-- A failure leaves something behind exactly if all else is right and a directory above is lacking. -/
theorem create_error_iff (hclosed : tree.Closed) (hne : workdir ≠ "") {error : Error}
    (h : tree.run (create workdir settings) = (.error error, left)) :
    left ≠ tree ↔ settings.validate = .ok () ∧ ∃ above below, below ≠ [] ∧ tree.Lacks workdir above below := by
  constructor
  · intro hchanged
    by_contra hlacks
    exact hchanged (tree_eq_of_create_error hclosed hne h fun hvalid above below hbelow hlack =>
      hlacks ⟨hvalid, above, below, hbelow, hlack⟩)
  · rintro ⟨hvalid, above, below, hbelow, hlacks⟩
    exact tree_ne_of_create_error hne h hvalid hbelow hlacks

/-! ## The empty path -/

/-- The empty path stands for where we are, and passes as missing whatever is there. -/
theorem run_create_here (tree : FileTree) (hvalid : settings.validate = .ok ())
    (hsettings : settings.toToml = .ok text) (henvironment : Environment.default.toToml = .ok envText) :
    tree.run (create "" settings) = tree.run (writeDocuments ⟨""⟩ text envText) := by
  obtain ⟨result, hcheck, hresult⟩ := run_checkVacant tree ⟨""⟩
  obtain rfl := hresult.2 (.inl rfl)
  unfold create
  rw [run_bind_of_ok hcheck, hvalid, run_bind_of_ok (run_liftExcept tree _), hsettings, henvironment]
  rfl

theorem exists_write_of_read {path : String} (h : tree.read path = .ok text) (other : String) :
    ∃ tree', tree.write path other = .ok tree' := by
  obtain ⟨place, content, hplace, hnode, -⟩ := read_eq_ok.1 h
  have hfile : tree.node? place ≠ some .directory := hnode.trans_ne fun h => nomatch h
  exact ⟨_, write_eq_ok.2 ⟨place, hplace, hfile, rfl⟩⟩

/-- A project at the empty path is set up again whenever the new settings can be used. -/
theorem create_again {other : ModelSettings} (hother : other.validate = .ok ())
    (h : tree.run (create "" settings) = (.ok project, made)) :
    ∃ again, made.run (create "" other) = (.ok project, again) := by
  obtain ⟨text, hsettings, -⟩ := settings.exists_toToml
  obtain ⟨newText, hnewText, -⟩ := other.exists_toToml
  obtain ⟨envText, henvironment, -⟩ := Environment.exists_toToml_default
  have hvalid : settings.validate = .ok () := by
    by_contra hvalid
    obtain ⟨error, hrun⟩ := @run_create_of_not tree "" settings fun hcheck => hvalid hcheck.2
    rw [h] at hrun
    cases hrun
  rw [run_create_here tree hvalid hsettings henvironment] at h
  obtain ⟨rfl, mid, hmid, hmade⟩ := run_writeDocuments_eq_ok.1 h
  have hread := read_of_write_beside isFileName_environmentName isFileName_settingsName (by decide) hmade
    (read_of_write hmid)
  obtain ⟨mid', hmid'⟩ := exists_write_of_read hread newText
  have hbeside := read_of_write_beside isFileName_settingsName isFileName_environmentName (by decide) hmid'
    (read_of_write hmade)
  obtain ⟨again, hagain⟩ := exists_write_of_read hbeside envText
  rw [run_create_here made hother hnewText henvironment]
  exact ⟨again, run_writeDocuments_eq_ok.2 ⟨rfl, mid', hmid', hagain⟩⟩

/-! ## Closed trees -/

/-- Writing the documents leaves everything in a directory, also where it fails. -/
theorem closed_of_writeDocuments (h : tree.Closed) (project : Project) (text envText : String) :
    (tree.run (project.writeDocuments text envText)).2.Closed := by
  unfold writeDocuments
  have hsettings := run_writeText tree (project.path settingsName) text
  cases hmid : tree.write (project.path settingsName) text with
  | error fault =>
    rw [hmid] at hsettings
    rwa [run_bind_of_error hsettings]
  | ok mid =>
    rw [hmid] at hsettings
    rw [run_bind_of_ok hsettings]
    have hclosed := h.of_write isFileName_settingsName hmid
    have henvironment := run_writeText mid (project.path environmentName) envText
    cases hlast : mid.write (project.path environmentName) envText with
    | error fault =>
      rw [hlast] at henvironment
      rwa [run_bind_of_error henvironment]
    | ok last =>
      rw [hlast] at henvironment
      rw [run_bind_of_ok henvironment]
      exact hclosed.of_write isFileName_environmentName hlast

/-- Setting up keeps everything in a directory, also where it fails. -/
theorem closed_of_create (h : tree.Closed) (workdir : String) (settings : ModelSettings) :
    (tree.run (create workdir settings)).2.Closed := by
  obtain ⟨text, hsettings, -⟩ := settings.exists_toToml
  obtain ⟨envText, henvironment, -⟩ := Environment.exists_toToml_default
  by_cases hcheck : Vacant tree ⟨workdir⟩ ∧ settings.validate = .ok ()
  · by_cases hne : workdir = ""
    · subst hne
      rw [run_create_here tree hcheck.2 hsettings henvironment]
      exact closed_of_writeDocuments h _ _ _
    · have hrun := run_create_of_vacant hne hcheck.1 hcheck.2 hsettings henvironment
      split_ifs at hrun
      · rw [hrun]
        exact closed_of_writeDocuments (h.madeTo hne) _ _ _
      · obtain ⟨error, hrun⟩ := hrun
        rw [hrun]
        dsimp only
        exact h.madeTo hne
  · obtain ⟨error, hrun⟩ := run_create_of_not hcheck
    rwa [hrun]

/-! ## Setting up -/

/-- What goes straight down from what is lacking can be made ready, unless its path ends in a `.`. -/
theorem ready_iff_lacks (hclosed : tree.Closed) (hne : workdir ≠ "")
    (hdown : ∀ above below, tree.Lacks workdir above below → ".." ∉ below) :
    tree.kind? workdir = none ∧ Ready (tree.madeTo workdir) ⟨workdir⟩ ↔
      (∃ above below, tree.Lacks workdir above below) ∧ ¬ Path.EndsInDot workdir := by
  constructor
  · rintro ⟨hnone, hready⟩
    have hlacks : ∃ above below, tree.Lacks workdir above below := by
      by_contra hlacks
      have hself := madeTo_eq_self hne fun above below h => hlacks ⟨above, below, h⟩
      have hkind := hready.directory
      rw [hself, hnone] at hkind
      cases hkind
    refine ⟨hlacks, fun hdot => ?_⟩
    obtain ⟨above, below, h⟩ := hlacks
    have hmade := h.madeTo hclosed hne (hdown above below h)
    rw [if_pos hdot] at hmade
    exact hmade hready.directory
  · rintro ⟨⟨above, below, h⟩, hdot⟩
    have hmade := h.madeTo hclosed hne (hdown above below h)
    rw [if_neg hdot] at hmade
    obtain ⟨place, hplace, hempty⟩ := hmade
    exact ⟨h.kind?_eq_none, ready_of_empty hne hplace hempty⟩

/--
Setting up a project in a tree in which everything is in a directory. It succeeds exactly if the settings
can be used and the directory is empty or is not there but can be made ready: with nothing that leads back
up below what is lacking, exactly if something is lacking and the path does not end in a `.`. The project
is opened and read as it was given, and is not set up again. A failure leaves something behind exactly if
the settings can be used and a directory above is lacking.
-/
theorem create_sound (hclosed : tree.Closed) (hne : workdir ≠ "") (settings : ModelSettings) :
    ((∃ project made, tree.run (create workdir settings) = (.ok project, made)) ↔
      settings.validate = .ok () ∧ (tree.names workdir = .ok [] ∨
        tree.kind? workdir = none ∧ Ready (tree.madeTo workdir) ⟨workdir⟩)) ∧
    ((∀ above below, tree.Lacks workdir above below → ".." ∉ below) →
      (tree.kind? workdir = none ∧ Ready (tree.madeTo workdir) ⟨workdir⟩ ↔
        (∃ above below, tree.Lacks workdir above below) ∧ ¬ Path.EndsInDot workdir)) ∧
    (∀ project made, tree.run (create workdir settings) = (.ok project, made) → project = ⟨workdir⟩ ∧
      made.run (openAt workdir) = (.ok ⟨workdir⟩, made) ∧
      made.run (loadSettings ⟨workdir⟩) = (.ok settings, made) ∧
      made.run (loadEnvironment ⟨workdir⟩) = (.ok .default, made) ∧
      ∀ other, made.run (create workdir other) = (.error (.workspace workdir .alreadyInitialized), made)) ∧
    ∀ error left, tree.run (create workdir settings) = (.error error, left) →
      (left ≠ tree ↔ settings.validate = .ok () ∧
        ∃ above below, below ≠ [] ∧ tree.Lacks workdir above below) := by
  refine ⟨?_, ready_iff_lacks hclosed hne, fun project made h => of_create hne h,
    fun error left h => create_error_iff hclosed hne h⟩
  rw [exists_create_iff hne]
  refine and_congr_right fun _ => ?_
  constructor
  · rintro ⟨hnone | hempty, hready⟩
    · exact .inr ⟨hnone, hready⟩
    · exact .inl hempty
  · rintro (hempty | ⟨hnone, hready⟩)
    · obtain ⟨hself, hready⟩ := ready_of_names hempty
      exact ⟨.inr hempty, hself.symm ▸ hready⟩
    · exact ⟨.inl hnone, hready⟩

/-- A file system with nothing in it. -/
def emptyTree : FileTree := ⟨[], []⟩

theorem closed_emptyTree : emptyTree.Closed := by
  intro place hplace
  cases place with
  | nil => rfl
  | cons name place => exact absurd rfl hplace

def plainSettings : ModelSettings := .make "M" "C" ""

theorem emptyTree_created : emptyTree.Closed ∧ "x/new" ≠ "" ∧
    ∃ made, emptyTree.run (create "x/new" plainSettings) = (.ok ⟨"x/new"⟩, made) ∧
      made.run (loadSettings ⟨"x/new"⟩) = (.ok plainSettings, made) := by
  have hne : "x/new" ≠ "" := by decide
  obtain ⟨hcreate, hready, hcreated, -⟩ := create_sound closed_emptyTree hne plainSettings
  have hdown : ∀ above below, emptyTree.Lacks "x/new" above below → ".." ∉ below := by
    intro above below h hdots
    have hmem : ".." ∈ Path.components "x/new" := h.components ▸ List.mem_append_right above hdots
    exact absurd hmem (by decide)
  have hlacks : emptyTree.Lacks "x/new" ["x"] ["new"] := ⟨by decide, _, rfl⟩
  obtain ⟨project, made, h⟩ := hcreate.2 ⟨rfl, .inr ((hready hdown).2 ⟨⟨_, _, hlacks⟩, by decide⟩)⟩
  obtain ⟨rfl, -, hload, -⟩ := hcreated project made h
  exact ⟨closed_emptyTree, hne, made, h, hload⟩

/-- With a `.` at the end of the path the same directory is not made, but the one above it is. -/
theorem emptyTree_left : plainSettings.validate = .ok () ∧ emptyTree.kind? "x/new/." = none ∧
    emptyTree.Lacks "x/new/." ["x"] ["new"] ∧
    emptyTree.run (create "x/new/." plainSettings) =
      (.error (.file "x/new/." .notFound), emptyTree.put ["x"] .directory) ∧
    emptyTree.kind? "x" = none ∧ (emptyTree.put ["x"] .directory).kind? "x" = some .directory :=
  ⟨rfl, rfl, ⟨by decide, _, rfl⟩, rfl, rfl, rfl⟩

end Project

end ModelBinding
