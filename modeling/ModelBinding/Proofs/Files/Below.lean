import ModelBinding.Proofs.Files.Missing
import ModelBinding.Proofs.Project.Discovery

/-!
# Files below a directory

Some names lead from a directory down to a regular file. Where everything is in a directory it does not
matter how the names are divided between the path of the directory and the names themselves, and a listing
of the directory shows the first of them.
-/
namespace ModelBinding

namespace Path

variable {directory name path : String} {names : List String}

instance (name : String) : Decidable (IsFileName name) :=
  decidable_of_iff ('/' ∉ name.toList ∧ name ≠ "" ∧ name ≠ "." ∧ name ≠ "..")
    ⟨fun h => ⟨h.1, h.2.1, h.2.2.1, h.2.2.2⟩, fun h => ⟨h.slash, h.notEmpty, h.notDot, h.notDots⟩⟩

/-- A path of two parts goes through the directory that the first part names. -/
theorem join_append_slash (directory : String) (h : IsPart name) (path : String) :
    join directory (name ++ "/" ++ path) = join (join directory name) path := by
  have hlast : (join directory name).toList.getLast? ≠ some '/' := by
    obtain ⟨s, hs, -⟩ := toList_join directory name
    rw [hs]
    exact getLast?_append_of_isPart h _
  rw [join_of_getLast? (join_ne_empty directory h) hlast]
  unfold join
  split_ifs
  · rw [String.append_assoc, String.append_assoc, String.append_assoc]
  · simp only [String.append_assoc]

theorem parts_intercalate (hne : names ≠ []) (h : ∀ name ∈ names, IsPart name) :
    parts ("/".intercalate names) = names := by
  induction names with
  | nil => exact absurd rfl hne
  | cons name names ih =>
    obtain ⟨hname, hnames⟩ := List.forall_mem_cons.1 h
    cases names with
    | nil => rw [String.intercalate_singleton, parts_of_isPart hname]
    | cons next rest =>
      rw [String.intercalate_cons_cons, parts_append_slash, parts_of_isPart hname,
        ih (List.cons_ne_nil _ _) hnames, List.singleton_append]

end Path

namespace FileTree

variable {tree : FileTree} {directory name : String} {names : List String} {place : Place}

/-- Every name in the tree is one that a file can have. -/
def HasFileNames (tree : FileTree) : Prop :=
  ∀ place, tree.node? place ≠ none → ∀ name ∈ place, Path.IsFileName name

/-- The names lead from the directory down to a regular file. -/
def FileBelow (tree : FileTree) (directory : String) (names : List String) : Prop :=
  ∃ place content, tree.folder directory = .ok place ∧
    tree.node? (place ++ names) = some (.file content)

/-- A tree is closed if all that it lists is in a directory. -/
theorem closed_of_nodes (h : ∀ entry ∈ tree.nodes, tree.node? entry.1.dropLast = some .directory) :
    tree.Closed := by
  intro place hplace
  by_cases hne : place = []
  · subst hne
    rfl
  · obtain ⟨node, hmem⟩ := (exists_mem_nodes_iff hne).2 hplace
    exact h _ hmem

theorem hasFileNames_of_nodes (h : ∀ entry ∈ tree.nodes, ∀ name ∈ entry.1, Path.IsFileName name) :
    tree.HasFileNames := by
  intro place hplace name hname
  obtain ⟨node, hmem⟩ := (exists_mem_nodes_iff (List.ne_nil_of_mem hname)).2 hplace
  exact h _ hmem name hname

theorem FileBelow.isFileName (h : tree.FileBelow directory names) (hnames : tree.HasFileNames) :
    ∀ name ∈ names, Path.IsFileName name := by
  obtain ⟨place, content, -, hnode⟩ := h
  exact fun name hname => hnames _ (hnode.trans_ne fun h => nomatch h) name
    (List.mem_append_right place hname)

/-- What has something below it is a directory. -/
theorem Closed.directory_of_below (h : tree.Closed) (hne : names ≠ [])
    (hnode : tree.node? (place ++ names) ≠ none) : tree.node? place = some .directory := by
  induction names using List.reverseRecOn with
  | nil => exact absurd rfl hne
  | append_singleton names name ih =>
    have hparent := h _ hnode
    rw [← List.append_assoc, List.dropLast_concat] at hparent
    by_cases hnames : names = []
    · subst hnames
      simpa using hparent
    · exact ih hnames (hparent.trans_ne fun h => nomatch h)

theorem Closed.fileBelow_join (h : tree.Closed) (hname : Path.IsFileName name) :
    tree.FileBelow (Path.join directory name) names ↔ tree.FileBelow directory (name :: names) := by
  unfold FileBelow
  rw [folder_join tree directory hname.isPart]
  constructor
  · rintro ⟨place, content, hplace, hnode⟩
    obtain ⟨start, hstart, hstep⟩ := bind_eq_ok.1 hplace
    obtain ⟨-, rfl⟩ := step_eq_ok.1 hstep
    rw [if_neg hname.notDot, if_neg hname.notDots, List.append_assoc] at hnode
    exact ⟨start, content, hstart, hnode⟩
  · rintro ⟨start, content, hstart, hnode⟩
    have hdirectory := h.directory_of_below (List.cons_ne_nil _ _) (hnode.trans_ne fun h => nomatch h)
    refine ⟨start ++ [name], content, bind_eq_ok.2 ⟨start, hstart, step_eq_ok.2 ⟨hdirectory, ?_⟩⟩, ?_⟩
    · rw [if_neg hname.notDot, if_neg hname.notDots]
    · rwa [List.append_assoc]

/-- A path to names below a directory leads to a regular file if the names do. -/
theorem Closed.kind?_intercalate (h : tree.Closed) (hne : names ≠ [])
    (hnames : ∀ name ∈ names, Path.IsFileName name) (directory : String) :
    tree.kind? (Path.join directory ("/".intercalate names)) = some .regular ↔
      tree.FileBelow directory names := by
  induction names generalizing directory with
  | nil => exact absurd rfl hne
  | cons name names ih =>
    obtain ⟨hname, hrest⟩ := List.forall_mem_cons.1 hnames
    cases names with
    | nil =>
      rw [String.intercalate_singleton, ← h.fileBelow_join hname, kind?_eq_some,
        locate_join tree directory hname.isPart, ← folder_join tree directory hname.isPart]
      simp only [FileBelow, List.append_nil]
      constructor
      · rintro ⟨place, node, hplace, hnode, hkind⟩
        cases node with
        | directory => cases hkind
        | file content => exact ⟨place, content, hplace, hnode⟩
      · rintro ⟨place, content, hplace, hnode⟩
        exact ⟨place, .file content, hplace, hnode, rfl⟩
    | cons next rest =>
      rw [String.intercalate_cons_cons, Path.join_append_slash directory hname.isPart,
        ih (List.cons_ne_nil _ _) hrest, h.fileBelow_join hname]

theorem Closed.kind?_join (h : tree.Closed) (hname : Path.IsFileName name) :
    tree.kind? (Path.join directory name) = some .regular ↔ tree.FileBelow directory [name] := by
  have hsingle := h.kind?_intercalate (List.cons_ne_nil name []) (List.forall_mem_singleton.2 hname) directory
  rwa [String.intercalate_singleton] at hsingle

/-! ## Listings -/

theorem mem_listing (hlocate : tree.locate directory = tree.folder directory) :
    name ∈ tree.listing directory ↔ ∃ place, tree.folder directory = .ok place ∧
      tree.node? place = some .directory ∧ tree.node? (place ++ [name]) ≠ none := by
  rw [← hlocate]
  cases hplace : tree.locate directory with
  | error fault => simp [listing_of_error hplace]
  | ok place =>
    by_cases hnode : tree.node? place = some .directory
    · simp [listing_of_directory hplace hnode, mem_sortDistinct, mem_namesAt_iff, hnode]
    · simp [listing_of_node? hplace hnode, hnode]

theorem pairwise_listing (tree : FileTree) (directory : String) :
    (tree.listing directory).Pairwise (· < ·) := by
  unfold listing
  split
  · exact pairwise_sortDistinct _
  · exact .nil

end FileTree

end ModelBinding
