import ModelBinding.Proofs.Files.Components
import ModelBinding.Proofs.Files.Runs

/-!
# Making directories

A directory is made with its parents by making one directory after the other, from the top. Each one is
made where nothing is yet, so a tree in which everything is in a directory stays one. Whether the last one
is there in the end is all that the result tells.
-/
namespace ModelBinding

namespace Path

variable {path : String}

theorem named_append_slashes {slashes : List Char} (h : ∀ c ∈ slashes, c = '/') (s : String) :
    named (s ++ String.ofList slashes) = named s := by
  induction slashes using List.reverseRecOn with
  | nil => exact congrArg named String.append_empty
  | append_singleton slashes c ih =>
    obtain ⟨hslashes, hc⟩ := List.forall_mem_append.1 h
    obtain rfl := hc c List.mem_cons_self
    have hlast : s ++ String.ofList (slashes ++ ['/']) = s ++ String.ofList slashes ++ "/" := by
      rw [← String.toList_inj]
      simp
    rw [named_of_stem (.inr hlast), ih hslashes]

/-- A path is what is left without its slashes at the end, and then slashes. -/
theorem exists_slashes (path : String) : ∃ slashes : List Char, (∀ c ∈ slashes, c = '/') ∧
    path = withoutTrailing path ++ String.ofList slashes := by
  refine ⟨(path.toList.reverse.takeWhile (· == '/')).reverse, fun c hc => ?_, ?_⟩
  · simpa using List.all_eq_true.1 List.all_takeWhile c (List.mem_reverse.1 hc)
  · rw [← String.toList_inj, String.toList_append, withoutTrailing, String.toList_ofList,
      String.toList_ofList, ← List.reverse_append, List.takeWhile_append_dropWhile, List.reverse_reverse]

theorem getLast?_withoutTrailing (path : String) : (withoutTrailing path).toList.getLast? ≠ some '/' := by
  rw [withoutTrailing, String.toList_ofList, List.getLast?_reverse]
  intro h
  have hhead := List.head?_dropWhile_not (· == '/') path.toList.reverse
  rw [h] at hhead
  simp at hhead

theorem named_withoutTrailing (path : String) : named (withoutTrailing path) = named path := by
  obtain ⟨slashes, hslashes, hpath⟩ := exists_slashes path
  rw [← named_append_slashes hslashes, ← hpath]

theorem steps_withoutTrailing (path : String) : steps (withoutTrailing path) = named path := by
  rw [← named_withoutTrailing, steps, if_neg (getLast?_withoutTrailing path), named]

theorem isAbsolute_withoutTrailing (h : withoutTrailing path ≠ "") :
    isAbsolute (withoutTrailing path) = isAbsolute path := by
  obtain ⟨slashes, -, hpath⟩ := exists_slashes path
  have hne : (withoutTrailing path).toList ≠ [] := fun hnil => h (String.toList_eq_nil_iff.1 hnil)
  have hlist := congrArg String.toList hpath
  rw [isAbsolute, isAbsolute, hlist, String.toList_append, List.head?_append_of_ne_nil _ hne]

/-- A path of slashes only is the root. -/
theorem root_of_withoutTrailing (hne : path ≠ "") (h : withoutTrailing path = "") :
    named path = [] ∧ isAbsolute path = true := by
  refine ⟨by rw [← named_withoutTrailing, h]; rfl, ?_⟩
  obtain ⟨slashes, hslashes, hpath⟩ := exists_slashes path
  rw [h, String.empty_append] at hpath
  have hlist := congrArg String.toList hpath
  rw [String.toList_ofList] at hlist
  rw [isAbsolute, hlist]
  cases slashes with
  | nil => exact absurd hpath hne
  | cons c rest =>
    rw [hslashes c List.mem_cons_self]
    rfl

end Path

namespace FileTree

variable {tree tree' made : FileTree} {path : String} {place : Place} {fault : FileFault}

/-! ## Directories that are there -/

theorem locate_eq_folder (hne : path ≠ "") : tree.locate path = tree.folder path ∨
    tree.locate path = tree.folder path >>= (tree.step · ".") := by
  have hlocate : tree.locate path = (Path.steps path).foldlM tree.step
      (if Path.isAbsolute path then [] else tree.workingDirectory) := by
    rw [locate, if_neg (by simpa using hne)]
  rw [hlocate, folder, Path.steps, ← Path.named]
  by_cases hslash : path.toList.getLast? = some '/'
  · rw [if_pos hslash, List.foldlM_append]
    right
    simp
  · rw [if_neg hslash]
    exact .inl rfl

theorem folder_of_locate (h : tree.locate path = .ok place) : tree.folder path = .ok place := by
  have hne : path ≠ "" := by
    rintro rfl
    cases h
  rcases @locate_eq_folder tree path hne with hlocate | hlocate
  · rw [← hlocate, h]
  · rw [hlocate] at h
    obtain ⟨start, hstart, h⟩ := bind_eq_ok.1 h
    obtain ⟨-, rfl⟩ := step_dot_eq_ok.1 h
    exact hstart

theorem locate_of_folder (hne : path ≠ "") (h : tree.folder path = .ok place)
    (hnode : tree.node? place = some .directory) : tree.locate path = .ok place := by
  rcases @locate_eq_folder tree path hne with hlocate | hlocate
  · rw [hlocate, h]
  · rw [hlocate, h]
    exact step_dot_eq_ok.2 ⟨hnode, rfl⟩

/-- A path to a directory. -/
def HasDirectory (tree : FileTree) (path : String) (place : Place) : Prop :=
  tree.folder path = .ok place ∧ tree.node? place = some .directory

theorem ne_directory_of_missing (h : tree.node? place = none) : tree.node? place ≠ some .directory :=
  h.trans_ne fun h => nomatch h

theorem kind?_eq_directory (hne : path ≠ "") :
    tree.kind? path = some .directory ↔ ∃ place, tree.HasDirectory path place := by
  rw [kind?_eq_some]
  constructor
  · rintro ⟨place, node, hplace, hnode, hkind⟩
    refine ⟨place, folder_of_locate hplace, ?_⟩
    cases node with
    | directory => exact hnode
    | file content => cases hkind
  · rintro ⟨place, hplace, hnode⟩
    exact ⟨place, .directory, locate_of_folder hne hplace hnode, hnode, rfl⟩

/-! ## Making one directory -/

theorem locate_withoutTrailing (h : Path.withoutTrailing path ≠ "") :
    tree.locate (Path.withoutTrailing path) = tree.folder path := by
  rw [locate, if_neg (by simpa using h), Path.steps_withoutTrailing, Path.isAbsolute_withoutTrailing h, folder]

/-- A directory is made where a path leads and nothing is. -/
theorem makeDirectory_eq_ok (hne : path ≠ "") : tree.makeDirectory path = .ok made ↔
    ∃ place, tree.folder path = .ok place ∧ tree.node? place = none ∧ tree.put place .directory = made := by
  unfold makeDirectory
  by_cases hroot : Path.withoutTrailing path = ""
  · obtain ⟨hnamed, habsolute⟩ := Path.root_of_withoutTrailing hne hroot
    rw [hroot]
    refine iff_of_false (fun h => nomatch h) ?_
    rintro ⟨place, hplace, hnode, -⟩
    rw [folder, hnamed, if_pos habsolute] at hplace
    cases hplace
    cases hnode
  · rw [locate_withoutTrailing hroot, bind_eq_ok]
    refine exists_congr fun place => and_congr_right fun _ => ?_
    cases tree.node? place with
    | none => simp [pure, Except.pure]
    | some node => simp [throw, throwThe, MonadExceptOf.throw]

/-- Without a directory, what cannot be found is what no path leads to. -/
theorem makeDirectory_eq_notFound (hne : path ≠ "") (h : tree.kind? path ≠ some .directory) :
    tree.makeDirectory path = .error .notFound ↔ tree.folder path = .error .notFound := by
  have hroot : Path.withoutTrailing path ≠ "" := by
    intro hroot
    obtain ⟨hnamed, habsolute⟩ := Path.root_of_withoutTrailing hne hroot
    refine h ((kind?_eq_directory hne).2 ⟨[], ?_, rfl⟩)
    rw [folder, hnamed, if_pos habsolute]
    rfl
  rw [makeDirectory, locate_withoutTrailing hroot]
  cases hplace : tree.folder path with
  | error fault => simp [bind, Except.bind]
  | ok place =>
    cases hnode : tree.node? place with
    | none => simp [bind, Except.bind, hnode, pure, Except.pure]
    | some node => simp [bind, Except.bind, hnode, throw, throwThe, MonadExceptOf.throw]

/-- The tree in which a directory has been made, if it could be. -/
def withDirectory (tree : FileTree) (path : String) : FileTree :=
  match tree.makeDirectory path with
  | .ok made => made
  | .error _ => tree

/-- All directories of one tree are in the other. -/
structure Keeps (tree tree' : FileTree) : Prop where
  workingDirectory : tree'.workingDirectory = tree.workingDirectory
  directory : ∀ place, tree.node? place = some .directory → tree'.node? place = some .directory

theorem Keeps.rfl : tree.Keeps tree := ⟨Eq.refl _, fun _ h => h⟩

theorem Keeps.trans {last : FileTree} (h : tree.Keeps tree') (h' : tree'.Keeps last) : tree.Keeps last :=
  ⟨h'.workingDirectory.trans h.workingDirectory, fun place hplace => h'.directory place (h.directory place hplace)⟩

theorem keeps_put {node : FileNode} (h : tree.node? place ≠ some .directory) :
    tree.Keeps (tree.put place node) := by
  refine ⟨Eq.refl _, fun other hother => ?_⟩
  have hne : other ≠ place := by
    rintro rfl
    exact h hother
  rwa [node?_put_of_ne tree node hne]

theorem Keeps.foldlM (h : tree.Keeps tree') {parts : List String} {start : Place}
    (hplace : parts.foldlM tree.step start = .ok place) : parts.foldlM tree'.step start = .ok place := by
  induction parts generalizing start with
  | nil => exact hplace
  | cons part parts ih =>
    obtain ⟨next, hnext, hplace⟩ := bind_eq_ok.1 (List.foldlM_cons.symm.trans hplace)
    obtain ⟨hnode, hstep⟩ := step_eq_ok.1 hnext
    rw [List.foldlM_cons]
    exact bind_eq_ok.2 ⟨next, step_eq_ok.2 ⟨h.directory start hnode, hstep⟩, ih hplace⟩

/-- Where more directories are, a path that led somewhere leads there still. -/
theorem Keeps.folder (h : tree.Keeps tree') (hplace : tree.folder path = .ok place) :
    tree'.folder path = .ok place := by
  rw [FileTree.folder] at hplace ⊢
  rw [h.workingDirectory]
  exact h.foldlM hplace

theorem Keeps.hasDirectory (h : tree.Keeps tree') (hplace : tree.HasDirectory path place) :
    tree'.HasDirectory path place :=
  ⟨h.folder hplace.1, h.directory place hplace.2⟩

theorem keeps_of_write {text : String} (h : tree.write path text = .ok tree') : tree.Keeps tree' := by
  obtain ⟨place, -, hnode, rfl⟩ := write_eq_ok.1 h
  exact keeps_put hnode

theorem withDirectory_of_ok (h : tree.makeDirectory path = .ok made) : tree.withDirectory path = made := by
  rw [withDirectory, h]

theorem withDirectory_of_error (h : tree.makeDirectory path = .error fault) : tree.withDirectory path = tree := by
  rw [withDirectory, h]

theorem withDirectory_of_folder (hne : path ≠ "") (h : tree.folder path = .error fault) :
    tree.withDirectory path = tree := by
  cases hmake : tree.makeDirectory path with
  | error fault' => exact withDirectory_of_error hmake
  | ok made =>
    obtain ⟨place, hplace, -⟩ := (makeDirectory_eq_ok hne).1 hmake
    rw [hplace] at h
    cases h

theorem withDirectory_of_node? {node : FileNode} (hne : path ≠ "") (hplace : tree.folder path = .ok place)
    (hnode : tree.node? place = some node) : tree.withDirectory path = tree := by
  cases hmake : tree.makeDirectory path with
  | error fault => exact withDirectory_of_error hmake
  | ok made =>
    obtain ⟨place', hplace', hnone, -⟩ := (makeDirectory_eq_ok hne).1 hmake
    obtain rfl := Except.ok.inj (hplace.symm.trans hplace')
    rw [hnone] at hnode
    cases hnode

theorem kind?_of_folder (hne : path ≠ "") (h : tree.folder path = .error fault) :
    tree.kind? path ≠ some .directory := by
  intro hkind
  obtain ⟨place, hplace, -⟩ := (kind?_eq_directory hne).1 hkind
  rw [hplace] at h
  cases h

theorem keeps_withDirectory (tree : FileTree) (hne : path ≠ "") : tree.Keeps (tree.withDirectory path) := by
  cases h : tree.makeDirectory path with
  | error fault =>
    rw [withDirectory_of_error h]
    exact .rfl
  | ok made =>
    obtain ⟨place, -, hnode, rfl⟩ := (makeDirectory_eq_ok hne).1 h
    rw [withDirectory_of_ok h]
    exact keeps_put (ne_directory_of_missing hnode)

theorem hasDirectory_of_makeDirectory (hne : path ≠ "") (h : tree.makeDirectory path = .ok made) :
    ∃ place, tree.folder path = .ok place ∧ made.HasDirectory path place := by
  obtain ⟨place, hplace, hnode, rfl⟩ := (makeDirectory_eq_ok hne).1 h
  have hmissing := ne_directory_of_missing hnode
  exact ⟨place, hplace, (keeps_put hmissing).folder hplace,
    node?_put_self tree _ (ne_root_of_node? hmissing)⟩

/-! ## Running -/

variable {ε : Type} {parents : ExceptT ε (StateM FileTree) (Except FileFault Unit)}
  {result : Except FileFault Unit} {route : List String}

theorem run_isDirectory (tree : FileTree) (path : String) :
    tree.run (FileAccess.isDirectory path : ExceptT ε (StateM FileTree) Bool) =
      (.ok (tree.kind? path == some .directory), tree) := by
  unfold FileAccess.isDirectory
  rw [run_bind_of_ok (run_kind? tree path)]
  rfl

/-- What comes of a directory that may be there already. -/
theorem run_ensureDirectory (tree : FileTree) (hne : path ≠ "") : ∃ result,
    tree.run (FileAccess.ensureDirectory path : ExceptT ε (StateM FileTree) _) =
      (.ok result, tree.withDirectory path) ∧
    (result = .ok () ↔ (tree.withDirectory path).kind? path = some .directory) ∧
    (result = .error .notFound ↔ tree.folder path = .error .notFound) := by
  have hrun := @run_makeDirectory ε tree path
  unfold FileAccess.ensureDirectory
  cases h : tree.makeDirectory path with
  | ok made =>
    rw [h] at hrun
    obtain ⟨place, hplace, hmade⟩ := hasDirectory_of_makeDirectory hne h
    rw [run_bind_of_ok hrun, withDirectory_of_ok h]
    refine ⟨.ok (), rfl, iff_of_true rfl ((kind?_eq_directory hne).2 ⟨place, hmade⟩), ?_⟩
    rw [hplace]
    exact iff_of_false (fun h => nomatch h) (fun h => nomatch h)
  | error fault =>
    rw [h] at hrun
    rw [run_bind_of_ok hrun, withDirectory_of_error h]
    dsimp only
    rw [run_bind_of_ok (run_isDirectory tree path)]
    by_cases hkind : tree.kind? path = some .directory
    · obtain ⟨place, hplace, -⟩ := (kind?_eq_directory hne).1 hkind
      rw [hplace, if_pos (beq_iff_eq.2 hkind)]
      exact ⟨.ok (), rfl, iff_of_true rfl hkind,
        iff_of_false (fun h => nomatch h) (fun h => nomatch h)⟩
    · rw [← makeDirectory_eq_notFound hne hkind, h, if_neg (by simpa using hkind)]
      exact ⟨.error fault, rfl, iff_of_false (fun h => nomatch h) hkind, by simp⟩

/--
Whether the parents have to be made or not, in the end they are as if they had been, and then the directory
has been made if it could be.
-/
theorem run_ensureWithParents {above : FileTree} (hne : path ≠ "")
    (hparents : tree.run parents = (.ok result, above))
    (hthere : tree.folder path ≠ .error .notFound → above = tree)
    (hmissing : result ≠ .ok () → ∃ fault, above.folder path = .error fault) : ∃ result',
    tree.run (FileAccess.ensureWithParents path parents) = (.ok result', above.withDirectory path) ∧
    (result' = .ok () ↔ (above.withDirectory path).kind? path = some .directory) := by
  obtain ⟨first, hfirst, hdone, hfault⟩ := @run_ensureDirectory path ε tree hne
  unfold FileAccess.ensureWithParents
  rw [run_bind_of_ok hfirst]
  by_cases hnotFound : first = .error .notFound
  · have hself := withDirectory_of_folder hne (hfault.1 hnotFound)
    subst hnotFound
    dsimp only
    rw [hself, run_bind_of_ok hparents]
    cases result with
    | error fault =>
      obtain ⟨fault', hfolder⟩ := hmissing fun h => nomatch h
      rw [withDirectory_of_folder hne hfolder]
      exact ⟨.error fault, rfl, iff_of_false (fun h => nomatch h) (kind?_of_folder hne hfolder)⟩
    | ok =>
      obtain ⟨last, hlast, hdone', -⟩ := @run_ensureDirectory path ε above hne
      exact ⟨last, hlast, hdone'⟩
  · obtain rfl := hthere fun h => hnotFound (hfault.2 h)
    refine ⟨first, ?_, hdone⟩
    cases first with
    | ok => rfl
    | error fault =>
      cases fault with
      | notFound => exact absurd rfl hnotFound
      | _ => rfl

/-- The tree in which directories have been made one after the other, each if it could be. Their components
are given from the last to the first. -/
def madeAbove (tree : FileTree) : List String → FileTree
  | [] => tree
  | name :: above => (tree.madeAbove above).withDirectory (Path.ofComponents (name :: above).reverse)

theorem madeAbove_concat (tree : FileTree) (route : List String) (part : String) :
    tree.madeAbove (route ++ [part]).reverse =
      (tree.madeAbove route.reverse).withDirectory (Path.ofComponents (route ++ [part])) := by
  rw [List.reverse_concat, madeAbove, ← List.reverse_concat, List.reverse_reverse]

/-- What `makeDirectories` leaves behind. -/
def madeTo (tree : FileTree) (path : String) : FileTree :=
  (tree.madeAbove (Path.components path).reverse.tail).withDirectory path

variable {part : String}

theorem exists_step_error (h : tree.node? place ≠ some .directory) (part : String) :
    ∃ fault, tree.step place part = .error fault := by
  cases hstep : tree.step place part with
  | error fault => exact ⟨fault, rfl⟩
  | ok next => exact absurd (step_eq_ok.1 hstep).1 h

/-- What is no directory leads no further. -/
theorem exists_folder_error (hroute : Path.Route route) (hne : route ≠ []) (hpart : Path.IsPart part)
    (h : tree.kind? (Path.ofComponents route) ≠ some .directory) :
    ∃ fault, tree.folder (Path.ofComponents (route ++ [part])) = .error fault := by
  rw [folder_concat hroute hpart]
  cases hfolder : tree.folder (Path.ofComponents route) with
  | error fault => exact ⟨fault, rfl⟩
  | ok place =>
    refine exists_step_error (fun hnode => h ?_) part
    exact (kind?_eq_directory (hroute.ofComponents_ne_empty hne)).2 ⟨place, hfolder, hnode⟩

/-- On a way that is blocked, or that leads somewhere, there is nothing to be made. -/
theorem madeAbove_of_folder (hroute : Path.Route route) (hpart : Path.IsPart part)
    (h : tree.folder (Path.ofComponents (route ++ [part])) ≠ .error .notFound) :
    tree.madeAbove route.reverse = tree := by
  induction hroute generalizing part with
  | here => rfl
  | root => exact withDirectory_of_node? (by decide) rfl rfl
  | @down route last above hlast ih =>
    have hne : Path.ofComponents (route ++ [last]) ≠ "" :=
      (above.down hlast).ofComponents_ne_empty (List.concat_ne_nil _ _)
    rw [folder_concat (above.down hlast) hpart] at h
    have hself : tree.madeAbove route.reverse = tree := by
      refine ih hlast fun hlost => h ?_
      rw [hlost]
      rfl
    rw [madeAbove_concat, hself]
    cases hfolder : tree.folder (Path.ofComponents (route ++ [last])) with
    | error fault => exact withDirectory_of_folder hne hfolder
    | ok place =>
      cases hnode : tree.node? place with
      | some node => exact withDirectory_of_node? hne hfolder hnode
      | none =>
        refine absurd ?_ h
        rw [hfolder]
        change tree.step place part = _
        rw [step, hnode]

theorem run_makeAncestors (tree : FileTree) (hroute : Path.Route route) : ∃ result,
    tree.run (FileAccess.makeAncestors route.reverse : ExceptT ε (StateM FileTree) _) =
      (.ok result, tree.madeAbove route.reverse) ∧
    (result = .ok () ↔ route = [] ∨
      (tree.madeAbove route.reverse).kind? (Path.ofComponents route) = some .directory) := by
  induction hroute with
  | here => exact ⟨.ok (), rfl, by simp⟩
  | root =>
    obtain ⟨result, hrun, hdone⟩ := @run_ensureWithParents tree "/" ε (FileAccess.makeAncestors []) (.ok ()) tree
      (by decide) rfl (fun _ => rfl) (absurd rfl)
    exact ⟨result, hrun, hdone.trans (or_iff_right (List.cons_ne_nil _ _)).symm⟩
  | @down route part above hpart ih =>
    obtain ⟨first, hfirst, hdone⟩ := ih
    have hne : route ++ [part] ≠ [] := List.concat_ne_nil _ _
    obtain ⟨result, hrun, hdone'⟩ := run_ensureWithParents ((above.down hpart).ofComponents_ne_empty hne) hfirst
      (madeAbove_of_folder above hpart) fun hresult => by
        obtain ⟨hroute, hkind⟩ := not_or.1 (mt hdone.2 hresult)
        exact exists_folder_error above hroute hpart hkind
    rw [madeAbove_concat, List.reverse_concat, FileAccess.makeAncestors, ← List.reverse_concat,
      List.reverse_reverse]
    exact ⟨result, hrun, hdone'.trans (or_iff_right hne).symm⟩

theorem madeTo_of_components (h : Path.components path = route ++ [part]) :
    tree.madeTo path = (tree.madeAbove route.reverse).withDirectory path := by
  rw [madeTo, h, List.reverse_concat, List.tail_cons]

/-- Making a directory with its parents makes one after the other, and tells whether it is there. -/
theorem run_makeDirectories (tree : FileTree) (hne : path ≠ "") : ∃ result,
    tree.run (FileAccess.makeDirectories path : ExceptT ε (StateM FileTree) _) = (.ok result, tree.madeTo path) ∧
    (result = .ok () ↔ (tree.madeTo path).kind? path = some .directory) := by
  obtain ⟨route, part, hcomponents, hroute, hpart⟩ := Path.exists_components_eq hne
  obtain ⟨first, hfirst, hdone⟩ := @run_makeAncestors ε route tree hroute
  rw [madeTo_of_components hcomponents, FileAccess.makeDirectories, if_neg (by simpa using hne), hcomponents,
    List.reverse_concat, List.tail_cons]
  refine run_ensureWithParents hne hfirst (fun hthere => ?_) fun hresult => ?_
  · rcases hpart with rfl | hpart
    · rfl
    · refine madeAbove_of_folder hroute hpart fun hlost => hthere (folder_of_error hne ?_)
      rw [componentsFolder, hcomponents, hlost]
  · obtain ⟨hnil, hkind⟩ := not_or.1 (mt hdone.2 hresult)
    obtain ⟨fault, hfault⟩ := exists_folder_error hroute hnil (hpart.resolve_left hnil) hkind
    refine ⟨fault, folder_of_error hne ?_⟩
    rw [componentsFolder, hcomponents, hfault]

end FileTree

end ModelBinding
