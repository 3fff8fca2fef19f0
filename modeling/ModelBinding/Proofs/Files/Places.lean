import ModelBinding.Files.Tree
import ModelBinding.Proofs.Results

/-!
# Places and paths

Where the paths of names in one directory lead, and what writing a file leaves alone: a path leads
where it led before, and every other place holds what it held.
-/
namespace ModelBinding

namespace Path

/-- A name that stands for itself in every directory. -/
structure IsFileName (name : String) : Prop where
  slash : '/' ∉ name.toList
  notEmpty : name ≠ ""
  notDot : name ≠ "."
  notDots : name ≠ ".."

/-- A text that can stand between two slashes. -/
structure IsPart (part : String) : Prop where
  slash : '/' ∉ part.toList
  notEmpty : part ≠ ""

theorem IsFileName.isPart {name : String} (h : IsFileName name) : IsPart name := ⟨h.slash, h.notEmpty⟩

theorem splitSlash_ne_nil (s : List Char) : splitSlash s ≠ [] := by
  induction s with
  | nil => exact List.cons_ne_nil _ _
  | cons c s ih =>
    unfold splitSlash
    split_ifs
    · exact List.cons_ne_nil _ _
    · cases h : splitSlash s with
      | nil => exact absurd h ih
      | cons part rest => exact List.cons_ne_nil _ _

theorem splitSlash_append (s t : List Char) :
    splitSlash (s ++ '/' :: t) = splitSlash s ++ splitSlash t := by
  induction s with
  | nil => rfl
  | cons c s ih =>
    rw [List.cons_append, splitSlash, splitSlash]
    by_cases hc : c = '/'
    · rw [if_pos hc, if_pos hc, ih, List.cons_append]
    · rw [if_neg hc, if_neg hc, ih]
      cases h : splitSlash s with
      | nil => exact absurd h (splitSlash_ne_nil s)
      | cons part rest => rfl

theorem splitSlash_of_notMem {s : List Char} (h : '/' ∉ s) : splitSlash s = [s] := by
  induction s with
  | nil => rfl
  | cons c s ih =>
    obtain ⟨hc, hs⟩ := not_or.1 (mt List.mem_cons.2 h)
    rw [splitSlash, if_neg (Ne.symm hc), ih hs]

/-- The parts of a path that are not empty. -/
def named (path : String) : List String := (parts path).filter (· != "")

theorem parts_of_isPart {name : String} (h : IsPart name) : parts name = [name] := by
  rw [parts, splitSlash_of_notMem h.slash, List.map_singleton, String.ofList_toList]

theorem named_of_isPart {name : String} (h : IsPart name) : named name = [name] := by
  rw [named, parts_of_isPart h, List.filter_cons_of_pos (by simpa using h.notEmpty), List.filter_nil]

theorem parts_append_slash (s t : String) : parts (s ++ "/" ++ t) = parts s ++ parts t := by
  have hlist : (s ++ "/" ++ t).toList = s.toList ++ '/' :: t.toList := by simp
  rw [parts, hlist, splitSlash_append, List.map_append, parts, parts]

theorem named_append_slash (s t : String) : named (s ++ "/" ++ t) = named s ++ named t := by
  rw [named, parts_append_slash, List.filter_append, named, named]

theorem join_of_getLast? {directory : String} (hne : directory ≠ "")
    (hslash : directory.toList.getLast? ≠ some '/') (name : String) :
    join directory name = directory ++ "/" ++ name := by
  rw [join, if_neg (by simp [hne, hslash])]

/-- A name is joined to a directory by a slash, which may be the one that the directory ends in. -/
theorem join_eq_append {directory : String} (hne : directory ≠ "") (name : String) :
    ∃ stem, join directory name = stem ++ "/" ++ name ∧ (directory = stem ∨ directory = stem ++ "/") := by
  by_cases hslash : directory.toList.getLast? = some '/'
  · obtain ⟨s, hs⟩ := List.getLast?_eq_some_iff.1 hslash
    have hdirectory : directory = String.ofList s ++ "/" := by
      rw [← String.toList_inj]
      simp [hs]
    refine ⟨String.ofList s, ?_, .inr hdirectory⟩
    rw [join, if_pos (by simp [hslash]), hdirectory]
  · exact ⟨directory, join_of_getLast? hne hslash name, .inl rfl⟩

theorem parts_append_final_slash (s : String) : parts (s ++ "/") = parts s ++ [""] := by
  have hparts := parts_append_slash s ""
  rwa [String.append_empty] at hparts

/-- A slash at the end names nothing. -/
theorem named_of_stem {directory stem : String} (h : directory = stem ∨ directory = stem ++ "/") :
    named directory = named stem := by
  rcases h with rfl | rfl
  · rfl
  · rw [named, parts_append_final_slash, List.filter_append]
    exact List.append_nil _

theorem named_join_of_ne {directory : String} (hne : directory ≠ "") (name : String) :
    named (join directory name) = named directory ++ named name := by
  obtain ⟨stem, hjoin, hstem⟩ := join_eq_append hne name
  rw [hjoin, named_append_slash, named_of_stem hstem]

theorem named_join (directory : String) {name : String} (h : IsPart name) :
    named (join directory name) = named directory ++ [name] := by
  rw [← named_of_isPart h]
  by_cases hempty : directory = ""
  · subst hempty
    have hjoin : join "" name = name := String.empty_append
    rw [hjoin]
    rfl
  · exact named_join_of_ne hempty name

theorem getLast?_append_of_isPart {name : String} (h : IsPart name) (s : List Char) :
    (s ++ name.toList).getLast? ≠ some '/' := by
  intro hlast
  have hne : name.toList ≠ [] := fun hnil => h.notEmpty (String.toList_eq_nil_iff.1 hnil)
  rw [List.getLast?_append_of_ne_nil s hne] at hlast
  exact h.slash (List.mem_of_getLast? hlast)

theorem toList_join (directory name : String) : ∃ s, (join directory name).toList =
    directory.toList ++ s ++ name.toList ∧ (directory.toList = [] → s = []) := by
  unfold join
  split_ifs with h
  · exact ⟨[], by simp, fun _ => rfl⟩
  · refine ⟨['/'], by simp, fun hnil => absurd ?_ h⟩
    simp [String.toList_eq_nil_iff.1 hnil]

theorem steps_join (directory : String) {name : String} (h : IsPart name) :
    steps (join directory name) = named directory ++ [name] := by
  obtain ⟨s, hs, -⟩ := toList_join directory name
  have hlast : (join directory name).toList.getLast? ≠ some '/' := by
    rw [hs]
    exact getLast?_append_of_isPart h _
  rw [← named_join directory h, steps, if_neg hlast, named]

theorem isAbsolute_join (directory : String) {name : String} (h : IsPart name) :
    isAbsolute (join directory name) = isAbsolute directory := by
  obtain ⟨s, hs, hempty⟩ := toList_join directory name
  rw [isAbsolute, isAbsolute, hs]
  cases hd : directory.toList with
  | cons c d => rfl
  | nil =>
    rw [hempty hd]
    cases hn : name.toList with
    | nil => rfl
    | cons c t =>
      have hc : c ≠ '/' := by
        rintro rfl
        exact h.slash (hn ▸ List.mem_cons_self)
      simpa using hc

theorem join_ne_empty (directory : String) {name : String} (h : IsPart name) :
    join directory name ≠ "" := by
  obtain ⟨s, hs, -⟩ := toList_join directory name
  intro hempty
  rw [hempty] at hs
  have hname : name.toList = [] := (List.append_eq_nil_iff.1 hs.symm).2
  exact h.notEmpty (String.toList_eq_nil_iff.1 hname)

end Path

/-- A text is valid in the encoding that it is written in. -/
theorem fromUTF8?_toUTF8 (text : String) : String.fromUTF8? text.toUTF8 = some text :=
  dif_pos text.isValidUTF8

namespace FileTree

variable {tree tree' : FileTree} {place : Place}

theorem step_eq_ok {part : String} {next : Place} : tree.step place part = .ok next ↔
    tree.node? place = some .directory ∧
      (if part = "." then place else if part = ".." then place.dropLast else place ++ [part]) =
        next := by
  unfold step
  cases h : tree.node? place with
  | none => simp
  | some node => cases node <;> simp

/-- The place that a path leads to if it is one of a directory. -/
def folder (tree : FileTree) (directory : String) : Except FileFault Place :=
  (Path.named directory).foldlM tree.step
    (if Path.isAbsolute directory then [] else tree.workingDirectory)

theorem locate_join (tree : FileTree) (directory : String) {name : String} (h : Path.IsPart name) :
    tree.locate (Path.join directory name) = tree.folder directory >>= (tree.step · name) := by
  have hne : (Path.join directory name).isEmpty = false := by
    simpa using Path.join_ne_empty directory h
  rw [locate, if_neg (by simp [hne]), Path.steps_join directory h, Path.isAbsolute_join directory h,
    List.foldlM_append, folder]
  simp

theorem folder_join (tree : FileTree) (directory : String) {name : String} (h : Path.IsPart name) :
    tree.folder (Path.join directory name) = tree.folder directory >>= (tree.step · name) := by
  rw [folder, Path.named_join directory h, Path.isAbsolute_join directory h, List.foldlM_append, folder]
  simp

/-- A name in a directory leads to the place below it. -/
theorem locate_join_eq_ok {directory name : String} (h : Path.IsFileName name) :
    tree.locate (Path.join directory name) = .ok place ↔ ∃ folder, tree.folder directory = .ok folder ∧
      tree.node? folder = some .directory ∧ folder ++ [name] = place := by
  rw [locate_join tree directory h.isPart, bind_eq_ok]
  simp only [step_eq_ok, if_neg h.notDot, if_neg h.notDots]

/-- Different names in one directory lead to different places. -/
theorem ne_of_locate_join {directory name other : String} {place' : Place}
    (h : Path.IsFileName name) (hother : Path.IsFileName other) (hne : other ≠ name)
    (hplace : tree.locate (Path.join directory name) = .ok place)
    (hplace' : tree.locate (Path.join directory other) = .ok place') : place' ≠ place := by
  obtain ⟨folder, hfolder, -, rfl⟩ := (locate_join_eq_ok h).1 hplace
  obtain ⟨folder', hfolder', -, rfl⟩ := (locate_join_eq_ok hother).1 hplace'
  rw [hfolder] at hfolder'
  cases hfolder'
  intro heq
  exact hne (List.singleton_inj.1 (List.append_cancel_left heq))

/-! ## Reading and writing -/

theorem read_eq_ok {path text : String} : tree.read path = .ok text ↔ ∃ place content,
    tree.locate path = .ok place ∧ tree.node? place = some (.file content) ∧
      String.fromUTF8? content = some text := by
  unfold read
  rw [bind_eq_ok]
  constructor
  · rintro ⟨place, hplace, h⟩
    split at h
    · cases h
    · cases h
    · rename_i content hnode
      split at h
      · rename_i text' htext
        cases h
        exact ⟨place, content, hplace, hnode, htext⟩
      · cases h
  · rintro ⟨place, content, hplace, hnode, htext⟩
    refine ⟨place, hplace, ?_⟩
    simp [hnode, htext, pure, Except.pure]

theorem write_eq_ok {path text : String} : tree.write path text = .ok tree' ↔ ∃ place,
    tree.locate path = .ok place ∧ tree.node? place ≠ some .directory ∧
      tree.put place (.file text.toUTF8) = tree' := by
  unfold write writeBytes
  rw [bind_eq_ok]
  refine exists_congr fun place => and_congr_right fun _ => ?_
  cases h : tree.node? place with
  | none => simp [pure, Except.pure]
  | some node => cases node <;> simp [pure, Except.pure, throw, throwThe, MonadExceptOf.throw]

theorem kind?_eq_some {path : String} {kind : FileKind} : tree.kind? path = some kind ↔
    ∃ place node, tree.locate path = .ok place ∧ tree.node? place = some node ∧
      kindOf node = kind := by
  unfold kind?
  cases tree.locate path with
  | error fault => simp
  | ok place => simp

theorem ne_root_of_node? (h : tree.node? place ≠ some .directory) : place ≠ [] := by
  rintro rfl
  exact h rfl

/-- A new file takes away no directory, so steps that led somewhere lead there still. -/
theorem step_put {content : ByteArray} (h : tree.node? place ≠ some .directory) {start next : Place}
    {part : String} : (tree.put place (.file content)).step start part = .ok next ↔
      tree.step start part = .ok next := by
  rw [step_eq_ok, step_eq_ok]
  refine and_congr_left fun _ => ?_
  by_cases hstart : start = place
  · subst hstart
    rw [node?_put_self tree _ (ne_root_of_node? h)]
    simp [h]
  · rw [node?_put_of_ne tree _ hstart]

theorem foldlM_step_put {content : ByteArray} (h : tree.node? place ≠ some .directory)
    (names : List String) (start last : Place) :
    names.foldlM (tree.put place (.file content)).step start = .ok last ↔
      names.foldlM tree.step start = .ok last := by
  induction names generalizing start with
  | nil => rfl
  | cons name names ih =>
    rw [List.foldlM_cons, List.foldlM_cons, bind_eq_ok, bind_eq_ok]
    simp only [step_put h, ih]

/-- Writing changes where no path leads. -/
theorem locate_of_write {path text other : String} (h : tree.write path text = .ok tree') :
    tree'.locate other = .ok place ↔ tree.locate other = .ok place := by
  obtain ⟨written, -, hnode, rfl⟩ := write_eq_ok.1 h
  unfold locate
  split_ifs
  · simp
  · exact foldlM_step_put hnode _ _ _
  · exact foldlM_step_put hnode _ _ _

/-- What is written is what is read. -/
theorem read_of_write {path text : String} (h : tree.write path text = .ok tree') :
    tree'.read path = .ok text := by
  obtain ⟨written, hplace, hnode, hput⟩ := write_eq_ok.1 h
  refine read_eq_ok.2 ⟨written, text.toUTF8, (locate_of_write h).2 hplace, ?_, ?_⟩
  · rw [← hput, node?_put_self tree _ (ne_root_of_node? hnode)]
  · exact fromUTF8?_toUTF8 text

/-- Writing leaves all other places alone. -/
theorem node?_of_write {path text : String} (h : tree.write path text = .ok tree')
    (hne : tree.locate path ≠ .ok place) : tree'.node? place = tree.node? place := by
  obtain ⟨written, hplace, -, rfl⟩ := write_eq_ok.1 h
  refine node?_put_of_ne tree _ ?_
  rintro rfl
  exact hne hplace

section

variable {directory name other text : String} (hname : Path.IsFileName name)
  (hother : Path.IsFileName other) (hne : other ≠ name)
  (h : tree.write (Path.join directory name) text = .ok tree')
include hname hother hne h

theorem node?_of_write_beside (hplace : tree.locate (Path.join directory other) = .ok place) :
    tree'.node? place = tree.node? place :=
  node?_of_write h fun hwritten => ne_of_locate_join hname hother hne hwritten hplace rfl

/-- Writing a file leaves the files beside it alone. -/
theorem read_of_write_beside {content : String}
    (hread : tree.read (Path.join directory other) = .ok content) :
    tree'.read (Path.join directory other) = .ok content := by
  obtain ⟨place, bytes, hplace, hnode, hcontent⟩ := read_eq_ok.1 hread
  refine read_eq_ok.2 ⟨place, bytes, (locate_of_write h).2 hplace, ?_, hcontent⟩
  rw [node?_of_write_beside hname hother hne h hplace, hnode]

theorem kind?_of_write_beside {kind : FileKind}
    (hkind : tree.kind? (Path.join directory other) = some kind) :
    tree'.kind? (Path.join directory other) = some kind := by
  obtain ⟨place, node, hplace, hnode, hkind⟩ := kind?_eq_some.1 hkind
  refine kind?_eq_some.2 ⟨place, node, (locate_of_write h).2 hplace, ?_, hkind⟩
  rw [node?_of_write_beside hname hother hne h hplace, hnode]

end

theorem kind?_of_read {path text : String} (h : tree.read path = .ok text) :
    tree.kind? path = some .regular := by
  obtain ⟨place, content, hplace, hnode, -⟩ := read_eq_ok.1 h
  exact kind?_eq_some.2 ⟨place, .file content, hplace, hnode, rfl⟩

end FileTree

end ModelBinding
