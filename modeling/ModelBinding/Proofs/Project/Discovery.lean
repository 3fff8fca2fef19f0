import ModelBinding.Proofs.Entries
import ModelBinding.Proofs.Files.Runs

/-!
# Sources and other files

Why writing a file that is no source, beside the directory of the sources, makes no difference to what
the search for them finds.
-/
namespace ModelBinding

variable {tree tree' : FileTree}

namespace Path

/-- The last part of a path ends in what the path ends in. -/
theorem splitSlash_append_of_notMem {t : List Char} (h : '/' ∉ t) (s : List Char) :
    ∃ init last, splitSlash (s ++ t) = init ++ [last ++ t] := by
  induction s with
  | nil => exact ⟨[], [], splitSlash_of_notMem h⟩
  | cons c s ih =>
    obtain ⟨init, last, hsplit⟩ := ih
    rw [List.cons_append, splitSlash]
    split_ifs
    · exact ⟨[] :: init, last, by rw [hsplit]; rfl⟩
    · cases init with
      | nil => exact ⟨[], c :: last, by rw [hsplit]; rfl⟩
      | cons part rest => exact ⟨(c :: part) :: rest, last, by rw [hsplit]; rfl⟩

/-- A suffix that only the name of a file can end in. -/
structure IsFileSuffix (suffix : String) : Prop where
  slash : '/' ∉ suffix.toList
  notEmpty : suffix ≠ ""
  notDot : suffix.toList.getLast? ≠ some '.'

variable {path suffix : String} {s : List Char}

theorem steps_of_suffix (hsuffix : IsFileSuffix suffix) (hpath : path.toList = s ++ suffix.toList) :
    ∃ init part, steps path = init ++ [part] ∧ suffix.toList <:+ part.toList := by
  have hne : suffix.toList ≠ [] := fun hnil => hsuffix.notEmpty (String.toList_eq_nil_iff.1 hnil)
  have hlast : path.toList.getLast? ≠ some '/' := by
    intro hlast
    rw [hpath, List.getLast?_append_of_ne_nil s hne] at hlast
    exact hsuffix.slash (List.mem_of_getLast? hlast)
  obtain ⟨init, last, hsplit⟩ := splitSlash_append_of_notMem hsuffix.slash s
  have hpart : [String.ofList (last ++ suffix.toList)].filter (· != "") =
      [String.ofList (last ++ suffix.toList)] := by
    refine List.filter_cons_of_pos (bne_iff_ne.2 fun hempty => ?_)
    have hnil := congrArg String.toList hempty
    rw [String.toList_ofList] at hnil
    exact hne (List.append_eq_nil_iff.1 hnil).2
  refine ⟨(init.map String.ofList).filter (· != ""), String.ofList (last ++ suffix.toList), ?_, ?_⟩
  · rw [steps, if_neg hlast, parts, hpath, hsplit, List.map_append, List.filter_append,
      List.map_singleton, hpart]
  · rw [String.toList_ofList]
    exact List.suffix_append last _

end Path

namespace FileTree

variable {place : Place} {path text : String}

/-- A path with such a suffix leads to a place whose name has it. -/
theorem locate_of_suffix {suffix : String} {s : List Char} (hsuffix : Path.IsFileSuffix suffix)
    (hpath : path.toList = s ++ suffix.toList) (h : tree.locate path = .ok place) :
    ∃ folder name, place = folder ++ [name] ∧ Sources.hasSuffix suffix name = true := by
  obtain ⟨init, part, hsteps, hpart⟩ := Path.steps_of_suffix hsuffix hpath
  have hdots : part ≠ "." ∧ part ≠ ".." := by
    have hne : suffix.toList ≠ [] := fun hnil => hsuffix.notEmpty (String.toList_eq_nil_iff.1 hnil)
    obtain ⟨front, hfront⟩ := hpart
    have hlast : part.toList.getLast? = suffix.toList.getLast? := by
      rw [← hfront, List.getLast?_append_of_ne_nil front hne]
    constructor
    · rintro rfl
      exact hsuffix.notDot hlast.symm
    · rintro rfl
      exact hsuffix.notDot hlast.symm
  unfold locate at h
  split_ifs at h
  all_goals
    rw [hsteps, List.foldlM_append] at h
    obtain ⟨folder, -, h⟩ := bind_eq_ok.1 h
    obtain ⟨last, hstep, hnext⟩ := bind_eq_ok.1 h
    cases hnext
    obtain ⟨-, rfl⟩ := step_eq_ok.1 hstep
    refine ⟨folder, part, by rw [if_neg hdots.1, if_neg hdots.2], ?_⟩
    exact List.isSuffixOf_iff_suffix.2 hpart

section

variable (h : tree.write path text = .ok tree')
include h

/-- Writing changes nothing about paths that lead elsewhere, be there something or not. -/
theorem kind?_of_write {other : String} (hne : ∀ place, tree.locate path = .ok place →
    tree.locate other ≠ .ok place) : tree'.kind? other = tree.kind? other := by
  unfold kind?
  cases hother : tree.locate other with
  | error fault =>
    cases hother' : tree'.locate other with
    | error fault' => rfl
    | ok place =>
      rw [(locate_of_write h).1 hother'] at hother
      cases hother
  | ok place =>
    have hnode := node?_of_write h fun hplace => hne place hplace hother
    simp only [(locate_of_write h).2 hother, hnode]

end

theorem mem_namesAt {name : String} : name ∈ tree.namesAt place ↔
    ∃ node, (place ++ [name], node) ∈ tree.nodes := by
  have hentry : ∀ other : Place,
      (if other.dropLast = place then other.getLast? else none) = some name ↔ other = place ++ [name] := by
    intro other
    rw [Option.ite_none_right_eq_some]
    constructor
    · rintro ⟨rfl, hlast⟩
      exact (List.dropLast_append_getLast? name hlast).symm
    · rintro rfl
      exact ⟨List.dropLast_concat, List.getLast?_concat⟩
  rw [namesAt, List.mem_filterMap]
  constructor
  · rintro ⟨⟨other, node⟩, hmem, hname⟩
    obtain rfl := (hentry other).1 hname
    exact ⟨node, hmem⟩
  · rintro ⟨node, hmem⟩
    exact ⟨(place ++ [name], node), hmem, (hentry _).2 rfl⟩

/-- All places but the root are listed. -/
theorem exists_mem_nodes_iff (hne : place ≠ []) :
    (∃ node, (place, node) ∈ tree.nodes) ↔ tree.node? place ≠ none := by
  rw [node?, if_neg hne]
  constructor
  · rintro ⟨node, hmem⟩ hnone
    simpa using List.lookup_eq_none_iff.1 hnone _ hmem
  · intro h
    obtain ⟨node, hnode⟩ := Option.ne_none_iff_exists'.1 h
    exact ⟨node, mem_of_lookup hnode⟩

/-- What is in a directory is what there is below its place. -/
theorem mem_namesAt_iff {name : String} :
    name ∈ tree.namesAt place ↔ tree.node? (place ++ [name]) ≠ none := by
  rw [mem_namesAt, exists_mem_nodes_iff (List.concat_ne_nil _ _)]

/-- A new file is listed in its own directory only. -/
theorem mem_namesAt_put {folder start : Place} {name other : String} {node : FileNode}
    (hne : start ++ [other] ≠ folder ++ [name]) :
    other ∈ (tree.put (folder ++ [name]) node).namesAt start ↔ other ∈ tree.namesAt start := by
  rw [mem_namesAt, mem_namesAt]
  refine exists_congr fun held => ?_
  simp [put, hne]

/-- What has no directory at its place lists nothing. -/
theorem listing_of_node? {directory : String} (hplace : tree.locate directory = .ok place)
    (hnode : tree.node? place ≠ some .directory) : tree.listing directory = [] := by
  unfold listing names
  rw [hplace]
  cases hheld : tree.node? place with
  | none => simp [bind, Except.bind, hheld, throw, throwThe, MonadExceptOf.throw]
  | some node =>
    cases node with
    | directory => exact absurd hheld hnode
    | file content => simp [bind, Except.bind, hheld, throw, throwThe, MonadExceptOf.throw]

theorem listing_of_directory {directory : String} (hplace : tree.locate directory = .ok place)
    (hnode : tree.node? place = some .directory) :
    tree.listing directory = sortDistinct (tree.namesAt place) := by
  unfold listing names
  rw [hplace]
  simp [bind, Except.bind, hnode, pure, Except.pure]

theorem listing_of_error {directory : String} {fault : FileFault}
    (h : tree.locate directory = .error fault) : tree.listing directory = [] := by
  unfold listing names
  rw [h]
  rfl

/-- What is listed after a file is written, of the names that the file cannot have. -/
theorem listing_of_write (h : tree.write path text = .ok tree') {folder : Place} {name directory : String}
    (hplace : tree.locate path = .ok (folder ++ [name])) {keep : String → Bool}
    (hkeep : tree.locate directory = .ok folder → keep name = false) :
    (tree'.listing directory).filter keep = (tree.listing directory).filter keep := by
  cases hdirectory : tree.locate directory with
  | error fault =>
    cases hdirectory' : tree'.locate directory with
    | error fault' => rw [listing_of_error hdirectory, listing_of_error hdirectory']
    | ok start =>
      rw [(locate_of_write h).1 hdirectory'] at hdirectory
      cases hdirectory
  | ok start =>
    have hdirectory' := (locate_of_write h).2 hdirectory
    obtain ⟨_, hwritten, hfile, rfl⟩ := write_eq_ok.1 h
    obtain rfl := Except.ok.inj (hwritten.symm.trans hplace)
    by_cases hstart : start = folder ++ [name]
    · -- The file itself is a directory neither before nor after.
      subst hstart
      rw [listing_of_node? hdirectory hfile, listing_of_node? hdirectory' (by simp)]
    · have hsame := node?_put_of_ne tree (.file text.toUTF8) hstart
      by_cases hnode : tree.node? start = some .directory
      · rw [listing_of_directory hdirectory hnode, listing_of_directory hdirectory' (hsame.trans hnode)]
        refine filter_sortDistinct_congr fun other hother => mem_namesAt_put fun heq => ?_
        obtain ⟨rfl, hname⟩ := List.append_inj' heq rfl
        obtain rfl := List.singleton_inj.1 hname
        rw [hkeep hdirectory] at hother
        cases hother
      · rw [listing_of_node? hdirectory hnode, listing_of_node? hdirectory' (hsame ▸ hnode)]

end FileTree

namespace Sources

open FileTree

variable {path text : String} {folder : Place} {name : String} (h : tree.write path text = .ok tree')
  (hplace : tree.locate path = .ok (folder ++ [name]))
include h hplace

theorem filesIn_of_write {suffix : String} (hsuffix : Path.IsFileSuffix suffix)
    (hname : hasSuffix suffix name = false) (directory : String) :
    filesIn tree' suffix directory = filesIn tree suffix directory := by
  unfold filesIn
  rw [listing_of_write h hplace fun _ => hname]
  refine List.filter_congr fun file hfile => ?_
  have hfile : suffix.toList <:+ file.toList := List.isSuffixOf_iff_suffix.1 (List.mem_filter.1 hfile).2
  rw [kind?_of_write h]
  intro place hwritten hother
  obtain ⟨front, hfront⟩ := hfile
  obtain ⟨s, hs, -⟩ := Path.toList_join directory file
  rw [← hfront, ← List.append_assoc] at hs
  obtain ⟨folder', last, rfl, hlast⟩ := locate_of_suffix hsuffix hs hother
  obtain ⟨-, hsame⟩ := List.append_inj' (Except.ok.inj (hplace.symm.trans hwritten)) rfl
  rw [← List.singleton_inj.1 hsame, hname] at hlast
  cases hlast

/-- A file that is no source, written outside of a directory, leaves what is found there alone. -/
theorem foundIn_of_write (hcpp : hasSuffix ".cpp" name = false) (hc : hasSuffix ".c" name = false)
    {directory : String} (hne : tree.locate directory ≠ .ok folder) :
    foundIn tree' directory = foundIn tree directory := by
  have hcppSuffix : Path.IsFileSuffix ".cpp" := by
    constructor <;> decide
  have hcSuffix : Path.IsFileSuffix ".c" := by
    constructor <;> decide
  have hlisting : tree'.listing directory = tree.listing directory := by
    have hall : (tree'.listing directory).filter (fun _ => true) =
        (tree.listing directory).filter fun _ => true :=
      listing_of_write h hplace fun hfolder => absurd hfolder hne
    rwa [List.filter_true, List.filter_true] at hall
  unfold foundIn nestedIn
  rw [filesIn_of_write h hplace hcppSuffix hcpp, filesIn_of_write h hplace hcSuffix hc, hlisting]
  simp only [filesIn_of_write h hplace hcSuffix hc]

end Sources

end ModelBinding
