import ModelBinding.Proofs.Files.Below
import ModelBinding.Proofs.Project.Spelling
import ModelBinding.Proofs.Text

/-!
# The sources of a model

The search finds each source once and in the order of names, whatever the order in which the files came
about. How a source is spelled tells which file it is, unless there is a backslash in one of its names: that
is spelled as a slash, and then the path can lead to nothing, or to another file.
-/
namespace ModelBinding

open FileTree

namespace Sources

variable {tree : FileTree} {directory suffix name : String} {names : List String}

/-! ## What is found -/

section

variable (hclosed : tree.Closed) (hnames : tree.HasFileNames)
  (hlocate : tree.locate directory = tree.folder directory)
include hclosed hnames hlocate

theorem mem_filesIn : name ∈ filesIn tree suffix directory ↔
    tree.FileBelow directory [name] ∧ suffix.toList <:+ name.toList := by
  unfold filesIn hasSuffix
  rw [List.mem_filter, List.mem_filter, mem_listing hlocate, List.isSuffixOf_iff_suffix, beq_iff_eq]
  constructor
  · rintro ⟨⟨⟨place, -, -, hnode⟩, hsuffix⟩, hkind⟩
    have hname : Path.IsFileName name := hnames _ hnode name (by simp)
    exact ⟨(hclosed.kind?_join hname).1 hkind, hsuffix⟩
  · rintro ⟨hbelow, hsuffix⟩
    have hname := hbelow.isFileName hnames name List.mem_cons_self
    obtain ⟨place, content, hplace, hnode⟩ := id hbelow
    have hthere : tree.node? (place ++ [name]) ≠ none := hnode.trans_ne fun h => nomatch h
    have hdirectory := hclosed.directory_of_below (List.cons_ne_nil _ _) hthere
    exact ⟨⟨⟨place, hplace, hdirectory, hthere⟩, hsuffix⟩, (hclosed.kind?_join hname).2 hbelow⟩

theorem mem_nestedIn : names ∈ nestedIn tree suffix directory ↔
    ∃ folder name, names = [folder, name] ∧ tree.FileBelow directory names ∧
      suffix.toList <:+ name.toList := by
  have hbelow : ∀ {folder name}, Path.IsFileName folder →
      (name ∈ filesIn tree suffix (Path.join directory folder) ↔
        tree.FileBelow directory [folder, name] ∧ suffix.toList <:+ name.toList) := by
    intro folder name hfolder
    have hsame := (locate_join tree directory hfolder.isPart).trans
      (folder_join tree directory hfolder.isPart).symm
    rw [mem_filesIn hclosed hnames hsame, hclosed.fileBelow_join hfolder]
  unfold nestedIn
  simp only [List.mem_flatMap, List.mem_map, mem_listing hlocate]
  constructor
  · rintro ⟨folder, ⟨place, -, -, hnode⟩, name, hname, rfl⟩
    exact ⟨folder, name, rfl, (hbelow (hnames _ hnode folder (by simp))).1 hname⟩
  · rintro ⟨folder, name, rfl, hfile, hsuffix⟩
    have hfolder := hfile.isFileName hnames folder List.mem_cons_self
    have hname := (hbelow hfolder).2 ⟨hfile, hsuffix⟩
    obtain ⟨place, content, hplace, hnode⟩ := hfile
    have hthere : tree.node? (place ++ [folder] ++ [name]) ≠ none := by
      simp [hnode]
    have hdirectory := hclosed.directory_of_below (List.cons_ne_nil _ _) hthere
    have habove : tree.node? (place ++ [folder]) ≠ none := hdirectory.trans_ne fun h => nomatch h
    exact ⟨folder, ⟨place, hplace, hclosed.directory_of_below (List.cons_ne_nil _ _) habove, habove⟩,
      name, hname, rfl⟩

end

/-! ## The order -/

theorem pairwise_filesIn (tree : FileTree) (suffix directory : String) :
    (filesIn tree suffix directory).Pairwise (· < ·) :=
  ((pairwise_listing tree directory).filter _).filter _

theorem pairwise_singletons (h : names.Pairwise (· < ·)) : (names.map ([·])).Pairwise (· < ·) :=
  List.pairwise_map.2 (h.imp fun hlt => .rel hlt)

theorem pairwise_nestedIn (tree : FileTree) (suffix directory : String) :
    (nestedIn tree suffix directory).Pairwise (· < ·) := by
  refine List.pairwise_flatMap.2 ⟨fun folder _ => ?_, (pairwise_listing tree directory).imp ?_⟩
  · exact List.pairwise_map.2 ((pairwise_filesIn tree suffix _).imp fun hlt => .cons (.rel hlt))
  · intro folder folder' hlt names hnames names' hnames'
    obtain ⟨name, -, rfl⟩ := List.mem_map.1 hnames
    obtain ⟨name', -, rfl⟩ := List.mem_map.1 hnames'
    exact .rel hlt

/-- The sources below a directory, each by the names that lead to it: units of C++, files of C, and the
files of C one directory further down. Each group is in the order of names. -/
structure Groups (tree : FileTree) (directory : String) (units files nested : List (List String)) :
    Prop where
  mem_units : ∀ names, names ∈ units ↔
    ∃ name, names = [name] ∧ tree.FileBelow directory names ∧ ".cpp".toList <:+ name.toList
  mem_files : ∀ names, names ∈ files ↔
    ∃ name, names = [name] ∧ tree.FileBelow directory names ∧ ".c".toList <:+ name.toList
  mem_nested : ∀ names, names ∈ nested ↔
    ∃ folder name, names = [folder, name] ∧ tree.FileBelow directory names ∧ ".c".toList <:+ name.toList
  units_increasing : units.Pairwise (· < ·)
  files_increasing : files.Pairwise (· < ·)
  nested_increasing : nested.Pairwise (· < ·)

theorem groups_foundIn (hclosed : tree.Closed) (hnames : tree.HasFileNames)
    (hlocate : tree.locate directory = tree.folder directory) :
    Groups tree directory ((filesIn tree ".cpp" directory).map ([·]))
      ((filesIn tree ".c" directory).map ([·])) (nestedIn tree ".c" directory) := by
  have hsingle : ∀ suffix names, names ∈ (filesIn tree suffix directory).map ([·]) ↔
      ∃ name, names = [name] ∧ tree.FileBelow directory names ∧ suffix.toList <:+ name.toList := by
    intro suffix names
    simp only [List.mem_map, mem_filesIn hclosed hnames hlocate]
    constructor
    · rintro ⟨name, hname, rfl⟩
      exact ⟨name, rfl, hname⟩
    · rintro ⟨name, rfl, hname⟩
      exact ⟨name, hname, rfl⟩
  exact ⟨hsingle _, hsingle _, fun names => mem_nestedIn hclosed hnames hlocate,
    pairwise_singletons (pairwise_filesIn tree _ _), pairwise_singletons (pairwise_filesIn tree _ _),
    pairwise_nestedIn tree _ _⟩

namespace Groups

variable {units files nested units' files' nested' : List (List String)}
  (h : Groups tree directory units files nested)
include h

/-- There is one list of sources for each group. -/
theorem unique (h' : Groups tree directory units' files' nested') :
    units = units' ∧ files = files' ∧ nested = nested' := by
  refine ⟨h.units_increasing.eq_of_mem_iff h'.units_increasing fun names => ?_,
    h.files_increasing.eq_of_mem_iff h'.files_increasing fun names => ?_,
    h.nested_increasing.eq_of_mem_iff h'.nested_increasing fun names => ?_⟩
  · rw [h.mem_units, h'.mem_units]
  · rw [h.mem_files, h'.mem_files]
  · rw [h.mem_nested, h'.mem_nested]

theorem nodup : (units ++ files ++ nested).Nodup := by
  refine List.Nodup.append (List.Nodup.append h.units_increasing.nodup h.files_increasing.nodup ?_)
    h.nested_increasing.nodup ?_
  · intro names hunit hfile
    obtain ⟨name, rfl, -, hcpp⟩ := (h.mem_units names).1 hunit
    obtain ⟨_, heq, -, hc⟩ := (h.mem_files _).1 hfile
    obtain rfl := List.singleton_inj.1 heq
    -- A name has one last letter.
    obtain ⟨front, hfront⟩ := hcpp
    obtain ⟨front', hfront'⟩ := hc
    have hlast := congrArg List.getLast? (hfront.trans hfront'.symm)
    rw [List.getLast?_append_of_ne_nil _ (by decide), List.getLast?_append_of_ne_nil _ (by decide)] at hlast
    exact absurd hlast (by decide)
  · intro names hfront hnested
    obtain ⟨folder, name, rfl, -⟩ := (h.mem_nested names).1 hnested
    rcases List.mem_append.1 hfront with hunit | hfile
    · obtain ⟨_, heq, -⟩ := (h.mem_units _).1 hunit
      cases heq
    · obtain ⟨_, heq, -⟩ := (h.mem_files _).1 hfile
      cases heq

theorem fileBelow (hmem : names ∈ units ++ files ++ nested) :
    names ≠ [] ∧ tree.FileBelow directory names := by
  rcases List.mem_append.1 hmem with hmem | hmem
  · rcases List.mem_append.1 hmem with hmem | hmem
    · obtain ⟨name, rfl, hbelow, -⟩ := (h.mem_units _).1 hmem
      exact ⟨List.cons_ne_nil _ _, hbelow⟩
    · obtain ⟨name, rfl, hbelow, -⟩ := (h.mem_files _).1 hmem
      exact ⟨List.cons_ne_nil _ _, hbelow⟩
  · obtain ⟨folder, name, rfl, hbelow, -⟩ := (h.mem_nested _).1 hmem
    exact ⟨List.cons_ne_nil _ _, hbelow⟩

end Groups

/-! ## Spelling -/

/-- How a source is spelled, given the names that lead to it. -/
def spelled (names : List String) : String := forwardSlashes ("/".intercalate names)

/-- There is no backslash in any of the names. -/
def Plain (names : List String) : Prop := ∀ name ∈ names, '\\' ∉ name.toList

theorem forwardSlashes_eq_self {s : String} : forwardSlashes s = s ↔ '\\' ∉ s.toList := by
  rw [forwardSlashes, ← String.toList_inj, String.toList_ofList]
  conv_lhs => rhs; rw [← List.map_id s.toList]
  rw [List.map_inj_left]
  constructor
  · exact fun h hmem => absurd (h _ hmem) (by decide)
  · rintro h c hc
    refine if_neg ?_
    rintro rfl
    exact h hc

theorem spelled_eq_iff : spelled names = "/".intercalate names ↔ Plain names := by
  rw [spelled, forwardSlashes_eq_self, mem_toList_intercalate (by decide)]
  simp [Plain]

theorem ofComponents_eq (h : ∀ name ∈ names, Path.IsFileName name) :
    Path.ofComponents names = "/".intercalate names := by
  unfold Path.ofComponents
  split
  · exact absurd (List.mem_singleton.2 rfl) (h "/" List.mem_cons_self).slash
  · rfl

/-- Names without a backslash can be told from how they are spelled. -/
theorem parts_spelled (hne : names ≠ []) (h : ∀ name ∈ names, Path.IsFileName name) (hplain : Plain names) :
    Path.parts (spelled names) = names := by
  rw [spelled_eq_iff.2 hplain]
  exact Path.parts_intercalate hne fun name hname => (h name hname).isPart

end Sources

theorem FileTree.folder_congr {tree other : FileTree} (hstart : other.workingDirectory = tree.workingDirectory)
    (hnodes : ∀ place, other.node? place = tree.node? place) (directory : String) :
    other.folder directory = tree.folder directory := by
  have hstep : other.step = tree.step := by
    funext place part
    rw [step, step, hnodes]
  rw [folder, folder, hstep, hstart]

theorem Path.not_leadsWithDot_of_isAbsolute {path : String} (h : isAbsolute path = true) :
    ¬ LeadsWithDot path := by
  have hne : path ≠ "" := by
    rintro rfl
    cases h
  obtain ⟨first, rest, hparts⟩ := exists_parts path
  rw [LeadsWithDot, components_of_parts hne hparts, if_pos ((isAbsolute_of_parts hne hparts).1 h)]
  exact fun hhead => absurd (Option.some.inj hhead) (by decide)

namespace Project

variable {tree : FileTree} {project : Project}

theorem locate_modelDirectory (tree : FileTree) (project : Project) :
    tree.locate project.modelDirectory = tree.folder project.modelDirectory :=
  (locate_join tree _ isFileName_modelDirectoryName.isPart).trans
    (folder_join tree _ isFileName_modelDirectoryName.isPart).symm

theorem run_discoverSources_of_groups {units files nested : List (List String)} (hclosed : tree.Closed)
    (hnames : tree.HasFileNames) (habsolute : Path.isAbsolute project.workdir = true)
    (h : Sources.Groups tree project.modelDirectory units files nested) :
    tree.run project.discoverSources =
      (.ok ((units ++ files ++ nested).map Sources.spelled), tree) := by
  obtain ⟨rfl, rfl, rfl⟩ :=
    h.unique (Sources.groups_foundIn hclosed hnames (locate_modelDirectory tree project))
  rw [run_discoverSources, discovered, if_neg (Path.not_leadsWithDot_of_isAbsolute habsolute)]
  refine congrArg (fun paths => (Except.ok paths, tree)) (List.map_congr_left fun names hmem => ?_)
  have hbelow := (h.fileBelow hmem).2
  rw [Sources.spelled, Sources.ofComponents_eq (hbelow.isFileName hnames)]

/--
In a tree of directories and files the search from an absolute path finds the sources group by group, each
once and in the order of names, and it finds the same in whatever order the tree lists its files. A source
is spelled as the path from the model directory exactly if there is no backslash in its names; where there is
none in any, no path is given twice and each leads to a file.
-/
theorem discoverSources_finds_each (hclosed : tree.Closed) (hnames : tree.HasFileNames)
    (habsolute : Path.isAbsolute project.workdir = true) :
    ∃ units files nested, Sources.Groups tree project.modelDirectory units files nested ∧
      tree.run project.discoverSources =
        (.ok ((units ++ files ++ nested).map Sources.spelled), tree) ∧
      (∀ other : FileTree, other.workingDirectory = tree.workingDirectory →
        (∀ place, other.node? place = tree.node? place) → other.run project.discoverSources =
          (.ok ((units ++ files ++ nested).map Sources.spelled), other)) ∧
      (units ++ files ++ nested).Nodup ∧
      (∀ names ∈ units ++ files ++ nested,
        Sources.spelled names = "/".intercalate names ↔ Sources.Plain names) ∧
      ((∀ names ∈ units ++ files ++ nested, Sources.Plain names) →
        ((units ++ files ++ nested).map Sources.spelled).Nodup ∧
        ∀ path ∈ (units ++ files ++ nested).map Sources.spelled,
          tree.kind? (Path.join project.modelDirectory path) = some .regular) := by
  have hgroups := Sources.groups_foundIn hclosed hnames (locate_modelDirectory tree project)
  refine ⟨_, _, _, hgroups, run_discoverSources_of_groups hclosed hnames habsolute hgroups, ?_,
    hgroups.nodup, fun names _ => Sources.spelled_eq_iff, fun hplain => ⟨?_, ?_⟩⟩
  · intro other hstart hnodes
    have hbelow : other.FileBelow = tree.FileBelow := by
      funext directory names
      simp only [FileBelow, folder_congr hstart hnodes, hnodes]
    have hclosed' : other.Closed := by
      simpa only [Closed, hnodes] using hclosed
    have hnames' : other.HasFileNames := by
      simpa only [HasFileNames, hnodes] using hnames
    obtain ⟨hunits, hfiles, hnested, hunits', hfiles', hnested'⟩ := hgroups
    refine run_discoverSources_of_groups hclosed' hnames' habsolute ⟨?_, ?_, ?_, hunits', hfiles', hnested'⟩
    · simpa only [hbelow] using hunits
    · simpa only [hbelow] using hfiles
    · simpa only [hbelow] using hnested
  · refine hgroups.nodup.map_on fun names hmem names' hmem' heq => ?_
    obtain ⟨hne, hbelow⟩ := hgroups.fileBelow hmem
    obtain ⟨hne', hbelow'⟩ := hgroups.fileBelow hmem'
    rw [← Sources.parts_spelled hne (hbelow.isFileName hnames) (hplain names hmem), heq,
      Sources.parts_spelled hne' (hbelow'.isFileName hnames) (hplain names' hmem')]
  · intro path hpath
    obtain ⟨names, hmem, rfl⟩ := List.mem_map.1 hpath
    obtain ⟨hne, hbelow⟩ := hgroups.fileBelow hmem
    rw [Sources.spelled_eq_iff.2 (hplain names hmem)]
    exact (hclosed.kind?_intercalate hne (hbelow.isFileName hnames) _).2 hbelow

/-- A model directory with a source that has only a suffix for its name, and a directory named like a
source. -/
def libraryTree : FileTree where
  workingDirectory := []
  nodes := [(["P"], .directory), (["P", "model"], .directory), (["P", "model", "rt.c"], .file .empty),
    (["P", "model", "lib.c"], .directory), (["P", "model", "lib.c", "block.c"], .file .empty),
    (["P", "model", "lib.c", "block.cpp"], .file .empty), (["P", "model", ".cpp"], .file .empty)]

theorem libraryTree_sources : libraryTree.Closed ∧ libraryTree.HasFileNames ∧
    Path.isAbsolute "/P" = true ∧
    libraryTree.run (discoverSources ⟨"/P"⟩) = (.ok [".cpp", "rt.c", "lib.c/block.c"], libraryTree) ∧
    ∃ units files nested, Sources.Groups libraryTree "/P/model" units files nested ∧
      (units ++ files ++ nested).map Sources.spelled = [".cpp", "rt.c", "lib.c/block.c"] := by
  have hclosed : libraryTree.Closed := by
    refine closed_of_nodes fun entry hentry => ?_
    fin_cases hentry <;> rfl
  have hnames : libraryTree.HasFileNames := hasFileNames_of_nodes (by decide)
  have hrun : libraryTree.run (discoverSources ⟨"/P"⟩) =
      (.ok [".cpp", "rt.c", "lib.c/block.c"], libraryTree) := rfl
  obtain ⟨units, files, nested, hgroups, hfound, -⟩ :=
    @discoverSources_finds_each libraryTree ⟨"/P"⟩ hclosed hnames rfl
  have hpaths := Except.ok.inj (congrArg Prod.fst (hfound.symm.trans hrun))
  exact ⟨hclosed, hnames, rfl, hrun, units, files, nested, hgroups, hpaths⟩

/-- A model directory with backslashes in the names of two sources. -/
def backslashTree : FileTree where
  workingDirectory := []
  nodes := [(["P"], .directory), (["P", "model"], .directory), (["P", "model", "a\\b.c"], .file .empty),
    (["P", "model", "lib"], .directory), (["P", "model", "lib", "x.c"], .file .empty),
    (["P", "model", "lib\\x.c"], .file .empty)]

/-- Of these sources the first is spelled like no file that there is, and the other two are spelled alike. -/
theorem backslashTree_misspelled : backslashTree.Closed ∧ backslashTree.HasFileNames ∧
    Path.isAbsolute "/P" = true ∧
    backslashTree.run (discoverSources ⟨"/P"⟩) = (.ok ["a/b.c", "lib/x.c", "lib/x.c"], backslashTree) ∧
    backslashTree.kind? "/P/model/a\\b.c" = some .regular ∧
    backslashTree.kind? "/P/model/a/b.c" = none := by
  refine ⟨closed_of_nodes fun entry hentry => ?_, hasFileNames_of_nodes (by decide), rfl, rfl, rfl, rfl⟩
  fin_cases hentry <;> rfl

end Project

end ModelBinding
