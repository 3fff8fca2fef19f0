import Mathlib.Data.List.Induction
import ModelBinding.Proofs.Files.Places

/-!
# Components of paths

The components of a path spell it anew, without the parts that name nothing. A path leads where its
components lead; only a `.` at its end asks for a directory where the components do not.
-/
namespace ModelBinding

namespace Path

variable {directory name path part first : String} {rest route : List String}

theorem eq_empty_of_parts (h : parts path = [""]) : path = "" := by
  unfold parts at h
  cases hpath : path.toList with
  | nil => exact String.toList_eq_nil_iff.1 hpath
  | cons c s =>
    rw [hpath, splitSlash] at h
    split_ifs at h
    · exact absurd (List.map_eq_nil_iff.1 (List.cons.inj h).2) (splitSlash_ne_nil s)
    · cases hs : splitSlash s with
      | nil => exact absurd hs (splitSlash_ne_nil s)
      | cons part rest =>
        rw [hs] at h
        have hpart := congrArg String.toList (List.cons.inj h).1
        rw [String.toList_ofList] at hpart
        cases hpart

theorem exists_parts (path : String) : ∃ first rest, parts path = first :: rest := by
  refine List.exists_cons_of_ne_nil fun h => ?_
  exact splitSlash_ne_nil _ (List.map_eq_nil_iff.1 h)

/-- The components of a path from its parts. -/
theorem components_of_parts (hne : path ≠ "") (h : parts path = first :: rest) :
    components path = (if first = "" then "/" else first) :: rest.filter isName := by
  unfold components
  rw [h]
  split
  · contradiction
  · rename_i hparts
    exact absurd (eq_empty_of_parts (h.trans hparts)) hne
  · rename_i hparts
    obtain ⟨rfl, rfl⟩ := List.cons.inj hparts
    rfl
  · rename_i hfirst hparts
    obtain ⟨rfl, rfl⟩ := List.cons.inj hparts
    rw [if_neg hfirst]

theorem components_ne_nil (hne : path ≠ "") : components path ≠ [] := by
  obtain ⟨first, rest, hparts⟩ := exists_parts path
  rw [components_of_parts hne hparts]
  exact List.cons_ne_nil _ _

theorem components_join (directory : String) (h : IsFileName name) :
    components (join directory name) = components directory ++ [name] := by
  have hname : isName name = true := by
    simp [isName, h.notEmpty, h.notDot]
  by_cases hempty : directory = ""
  · subst hempty
    have hjoin : join "" name = name := String.empty_append
    rw [hjoin, components_of_parts h.notEmpty (parts_of_isPart h.isPart), if_neg h.notEmpty]
    rfl
  · obtain ⟨stem, hjoin, hstem⟩ := join_eq_append hempty name
    obtain ⟨first, rest, hparts⟩ := exists_parts stem
    have hjoined : parts (join directory name) = first :: (rest ++ [name]) := by
      rw [hjoin, parts_append_slash, hparts, parts_of_isPart h.isPart]
      rfl
    have hdirectory : components directory =
        (if first = "" then "/" else first) :: rest.filter isName := by
      rcases hstem with rfl | rfl
      · exact components_of_parts hempty hparts
      · have hslash : parts (stem ++ "/") = first :: (rest ++ [""]) := by
          rw [parts_append_final_slash, hparts, List.cons_append]
        rw [components_of_parts hempty hslash, List.filter_append]
        exact congrArg _ (List.append_nil _)
    rw [components_of_parts (join_ne_empty directory h.isPart) hjoined, hdirectory, List.filter_append,
      List.filter_cons_of_pos hname, List.filter_nil, List.cons_append]

/-- Only at the front a component can be a `.`. -/
theorem ne_dot_of_components (h : components path = first :: rest) {part : String} (hpart : part ∈ rest) :
    part ≠ "." := by
  have hne : path ≠ "" := by
    rintro rfl
    cases h
  obtain ⟨first', rest', hparts⟩ := exists_parts path
  rw [components_of_parts hne hparts] at h
  obtain ⟨-, rfl⟩ := List.cons.inj h
  have hname := (List.mem_filter.1 hpart).2
  rintro rfl
  cases hname

/-! ## What is below a directory -/

theorem steps_join_of_ne (hne : directory ≠ "") (name : String) :
    steps (join directory name) = named directory ++ steps ("/" ++ name) := by
  obtain ⟨stem, hjoin, hstem⟩ := join_eq_append hne name
  have hlast : (stem ++ "/" ++ name).toList.getLast? = ("/" ++ name).toList.getLast? := by
    rw [String.append_assoc, String.toList_append]
    exact List.getLast?_append_of_ne_nil _ (by simp)
  have hbelow : named ("/" ++ name) = named name := named_append_slash "" name
  have hsteps : ∀ path, steps path =
      if path.toList.getLast? = some '/' then named path ++ ["."] else named path := fun _ => rfl
  rw [hjoin, hsteps, hsteps, hlast, named_append_slash, hbelow, named_of_stem hstem]
  split_ifs
  · exact List.append_assoc _ _ _
  · rfl

theorem isAbsolute_join_of_ne (hne : directory ≠ "") (name : String) :
    isAbsolute (join directory name) = isAbsolute directory := by
  obtain ⟨s, hs, -⟩ := toList_join directory name
  have hlist : directory.toList ≠ [] := fun hnil => hne (String.toList_eq_nil_iff.1 hnil)
  rw [isAbsolute, isAbsolute, hs, List.append_assoc, List.head?_append_of_ne_nil _ hlist]

theorem join_ne_empty_of_ne (hne : directory ≠ "") (name : String) : join directory name ≠ "" := by
  obtain ⟨stem, hjoin, -⟩ := join_eq_append hne name
  intro hempty
  have hlist := congrArg String.toList (hjoin.symm.trans hempty)
  simp at hlist

/-! ## Routes -/

/-- Components that lead from the root, or from where we are, further and further down. -/
inductive Route : List String → Prop where
  | here : Route []
  | root : Route ["/"]
  | down {route : List String} {part : String} (above : Route route) (last : IsPart part) :
    Route (route ++ [part])

theorem notMem_of_mem_splitSlash {s piece : List Char} (h : piece ∈ splitSlash s) : '/' ∉ piece := by
  induction s generalizing piece with
  | nil =>
    rw [List.mem_singleton.1 h]
    exact List.not_mem_nil
  | cons c s ih =>
    unfold splitSlash at h
    split_ifs at h with hc
    · rcases List.mem_cons.1 h with rfl | h
      · exact List.not_mem_nil
      · exact ih h
    · cases hs : splitSlash s with
      | nil => exact absurd hs (splitSlash_ne_nil s)
      | cons piece' pieces =>
        rw [hs] at h ih
        rcases List.mem_cons.1 h with rfl | h
        · exact mt List.mem_cons.1 (not_or.2 ⟨Ne.symm hc, ih List.mem_cons_self⟩)
        · exact ih (List.mem_cons_of_mem _ h)

theorem isPart_of_mem_parts (h : part ∈ parts path) (hne : part ≠ "") : IsPart part := by
  obtain ⟨piece, hpiece, rfl⟩ := List.mem_map.1 h
  refine ⟨?_, hne⟩
  rw [String.toList_ofList]
  exact notMem_of_mem_splitSlash hpiece

theorem isAbsolute_of_parts (hne : path ≠ "") (h : parts path = first :: rest) :
    isAbsolute path = true ↔ first = "" := by
  unfold parts at h
  unfold isAbsolute
  cases hpath : path.toList with
  | nil => exact absurd (String.toList_eq_nil_iff.1 hpath) hne
  | cons c s =>
    rw [hpath, splitSlash] at h
    by_cases hc : c = '/'
    · rw [if_pos hc] at h
      obtain rfl := (List.cons.inj h).1
      simp [hc]
    · rw [if_neg hc] at h
      cases hs : splitSlash s with
      | nil => exact absurd hs (splitSlash_ne_nil s)
      | cons piece pieces =>
        rw [hs] at h
        obtain rfl := (List.cons.inj h).1
        simp [hc]

theorem Route.append {names : List String} (h : Route route) (hnames : ∀ name ∈ names, IsPart name) :
    Route (route ++ names) := by
  induction names using List.reverseRecOn with
  | nil => rwa [List.append_nil]
  | append_singleton names name ih =>
    obtain ⟨habove, hname⟩ := List.forall_mem_append.1 hnames
    rw [← List.append_assoc]
    exact .down (ih habove) (hname name List.mem_cons_self)

/-- The last component of a route is a part, if it is not the root. -/
theorem Route.isPart_of_concat (h : Route (route ++ [part])) : route = [] ∨ IsPart part := by
  generalize hroute : route ++ [part] = whole at h
  cases h with
  | here => exact absurd hroute (List.concat_ne_nil _ _)
  | root => exact .inl (List.append_inj' (hroute.trans (List.nil_append _).symm) rfl).1
  | down above last =>
    obtain ⟨-, hpart⟩ := List.append_inj' hroute rfl
    exact .inr (List.singleton_inj.1 hpart ▸ last)

/-- What comes before the last component is a route too. -/
theorem Route.of_concat (h : Route (route ++ [part])) : Route route := by
  generalize hroute : route ++ [part] = whole at h
  cases h with
  | here => exact absurd hroute (List.concat_ne_nil _ _)
  | root =>
    obtain ⟨rfl, -⟩ := List.append_inj' (hroute.trans (List.nil_append _).symm) rfl
    exact .here
  | down above last =>
    obtain ⟨rfl, -⟩ := List.append_inj' hroute rfl
    exact above

theorem Route.of_append {names : List String} (h : Route (route ++ names)) : Route route := by
  induction names using List.reverseRecOn with
  | nil => rwa [List.append_nil] at h
  | append_singleton names name ih =>
    rw [← List.append_assoc] at h
    exact ih h.of_concat

theorem route_components (path : String) : Route (components path) := by
  by_cases hne : path = ""
  · subst hne
    exact .here
  · obtain ⟨first, rest, hparts⟩ := exists_parts path
    have hrest : ∀ part ∈ rest.filter isName, IsPart part := by
      intro part hpart
      obtain ⟨hmem, hname⟩ := List.mem_filter.1 hpart
      refine isPart_of_mem_parts (hparts ▸ List.mem_cons_of_mem _ hmem) ?_
      rintro rfl
      cases hname
    rw [components_of_parts hne hparts]
    by_cases hfirst : first = ""
    · rw [if_pos hfirst]
      exact Route.root.append hrest
    · rw [if_neg hfirst]
      have hpart := isPart_of_mem_parts (hparts ▸ List.mem_cons_self) hfirst
      exact (Route.here.down hpart).append hrest

/-- Every path that is not empty has a last component. -/
theorem exists_components_eq (hne : path ≠ "") : ∃ route part, components path = route ++ [part] ∧ Route route ∧
    (route = [] ∨ IsPart part) := by
  obtain ⟨route, part, hcomponents⟩ :=
    (List.eq_nil_or_concat' (components path)).resolve_left (components_ne_nil hne)
  have hroute : Route (route ++ [part]) := hcomponents ▸ route_components path
  exact ⟨route, part, hcomponents, hroute.of_concat, hroute.isPart_of_concat⟩

theorem IsPart.ne_root (h : IsPart part) : part ≠ "/" := by
  rintro rfl
  exact absurd List.mem_cons_self h.slash

theorem ofComponents_of_ne {names : List String} (h : names.head? ≠ some "/") :
    ofComponents names = "/".intercalate names := by
  unfold ofComponents
  split
  · exact absurd rfl h
  · rfl

theorem intercalate_concat {names : List String} (hne : names ≠ []) (name : String) :
    "/".intercalate (names ++ [name]) = "/".intercalate names ++ "/" ++ name := by
  rw [String.intercalate_append_of_ne_nil hne (List.cons_ne_nil _ _), String.intercalate_singleton]

theorem ofComponents_singleton (h : IsPart part) : ofComponents [part] = part := by
  have hhead : [part].head? ≠ some "/" := fun heq => h.ne_root (Option.some.inj heq)
  rw [ofComponents_of_ne hhead, String.intercalate_singleton]

theorem ofComponents_concat (hne : route ≠ []) (hroot : route ≠ ["/"]) (part : String) :
    ofComponents (route ++ [part]) = ofComponents route ++ "/" ++ part := by
  obtain ⟨first, rest, rfl⟩ := List.exists_cons_of_ne_nil hne
  by_cases hfirst : first = "/"
  · subst hfirst
    have hrest : rest ≠ [] := fun hnil => hroot (congrArg _ hnil)
    change "/" ++ "/".intercalate (rest ++ [part]) = "/" ++ "/".intercalate rest ++ "/" ++ part
    rw [intercalate_concat hrest]
    simp only [String.append_assoc]
  · have hhead : ∀ tail : List String, (first :: tail).head? ≠ some "/" := fun _ heq =>
      hfirst (Option.some.inj heq)
    rw [List.cons_append, ofComponents_of_ne (hhead _), ofComponents_of_ne (hhead _), ← List.cons_append,
      intercalate_concat (List.cons_ne_nil _ _)]

/-- A route that has left its start ends in a part. -/
theorem Route.exists_ofComponents (h : Route route) (hpart : IsPart part) :
    ∃ s, ofComponents (route ++ [part]) = s ++ part := by
  by_cases hnil : route = []
  · subst hnil
    exact ⟨"", by rw [List.nil_append, ofComponents_singleton hpart, String.empty_append]⟩
  · by_cases hroot : route = ["/"]
    · subst hroot
      refine ⟨"/", ?_⟩
      change "/" ++ "/".intercalate [part] = "/" ++ part
      rw [String.intercalate_singleton]
    · exact ⟨ofComponents route ++ "/", ofComponents_concat hnil hroot part⟩

/-- One component more is one part more. -/
theorem Route.ofComponents_concat (h : Route route) (hpart : IsPart part) :
    ofComponents (route ++ [part]) = join (ofComponents route) part := by
  cases h with
  | here =>
    rw [List.nil_append, ofComponents_singleton hpart]
    exact String.empty_append.symm
  | root =>
    change "/" ++ "/".intercalate [part] = "/" ++ part
    rw [String.intercalate_singleton]
  | @down route last habove hlast =>
    obtain ⟨s, hs⟩ := habove.exists_ofComponents hlast
    have hend : (s ++ last).toList.getLast? ≠ some '/' := by
      rw [String.toList_append]
      exact getLast?_append_of_isPart hlast _
    have hne : s ++ last ≠ "" := fun hnil => hlast.notEmpty (String.append_eq_empty_iff.1 hnil).2
    have hroot : route ++ [last] ≠ ["/"] := by
      rintro heq
      obtain ⟨-, hslash⟩ := List.append_inj' (heq.trans (List.nil_append _).symm) rfl
      exact hlast.ne_root (List.singleton_inj.1 hslash)
    rw [Path.ofComponents_concat (List.concat_ne_nil _ _) hroot, hs,
      join_of_getLast? hne hend]

theorem Route.ofComponents_ne_empty (h : Route route) (hne : route ≠ []) : ofComponents route ≠ "" := by
  cases h with
  | here => exact absurd rfl hne
  | root => decide
  | down above last =>
    rw [above.ofComponents_concat last]
    exact join_ne_empty _ last

theorem Route.named_ofComponents (h : Route route) :
    named (ofComponents route) = route.filter (· != "/") := by
  induction h with
  | here => rfl
  | root => rfl
  | down above last ih =>
    rw [above.ofComponents_concat last, named_join _ last, ih, List.filter_append,
      List.filter_cons_of_pos (by simpa using last.ne_root), List.filter_nil]

theorem Route.isAbsolute_ofComponents (h : Route route) :
    isAbsolute (ofComponents route) = true ↔ route.head? = some "/" := by
  induction h with
  | here => decide
  | root => decide
  | @down route part above last ih =>
    rw [above.ofComponents_concat last, isAbsolute_join _ last, ih]
    cases route with
    | nil => exact iff_of_false (fun h => nomatch h) fun h => last.ne_root (Option.some.inj h)
    | cons first rest => exact Iff.rfl

/-- A path that ends in a `.`, which asks for a directory to be there. -/
def EndsInDot (path : String) : Prop := (named path).getLast? = some "."

instance (path : String) : Decidable (EndsInDot path) := inferInstanceAs (Decidable (_ = _))

theorem ne_root_of_mem_parts (h : part ∈ parts path) : part ≠ "/" := by
  by_cases hne : part = ""
  · rw [hne]
    decide
  · exact (isPart_of_mem_parts h hne).ne_root

/-- A path and its components have the same start and name the same from there, some `.` aside. -/
theorem exists_named_eq (hne : path ≠ "") :
    isAbsolute (ofComponents (components path)) = isAbsolute path ∧ ∃ lead rest,
      named path = lead ++ rest ∧ named (ofComponents (components path)) = lead ++ rest.filter (· != ".") := by
  obtain ⟨first, rest, hparts⟩ := exists_parts path
  have hnames : (rest.filter isName).filter (· != "/") = (rest.filter (· != "")).filter (· != ".") := by
    rw [List.filter_filter, List.filter_filter]
    refine List.filter_congr fun part hpart => ?_
    have hroot : part ≠ "/" := ne_root_of_mem_parts (hparts ▸ List.mem_cons_of_mem _ hpart)
    simp [isName, hroot, Bool.and_comm]
  rw [Bool.eq_iff_iff, (route_components path).isAbsolute_ofComponents, isAbsolute_of_parts hne hparts,
    (route_components path).named_ofComponents, components_of_parts hne hparts, named, hparts]
  by_cases hfirst : first = ""
  · subst hfirst
    exact ⟨iff_of_true rfl rfl, [], rest.filter (· != ""), rfl, hnames⟩
  · have hroot : first ≠ "/" := ne_root_of_mem_parts (hparts ▸ List.mem_cons_self)
    refine ⟨by simp [hfirst, hroot], [first], rest.filter (· != ""), ?_, ?_⟩
    · rw [List.filter_cons_of_pos (by simpa using hfirst), List.singleton_append]
    · rw [if_neg hfirst, List.filter_cons_of_pos (by simpa using hroot), hnames, List.singleton_append]

end Path

namespace FileTree

variable {tree : FileTree} {directory path name part : String} {route : List String} {start place : Place}

theorem locate_join_of_ne (tree : FileTree) {directory : String} (hne : directory ≠ "") (name : String) :
    tree.locate (Path.join directory name) =
      tree.folder directory >>= fun place => (Path.steps ("/" ++ name)).foldlM tree.step place := by
  have hjoin : (Path.join directory name).isEmpty = false := by
    simpa using Path.join_ne_empty_of_ne hne name
  rw [FileTree.locate, if_neg (by simp [hjoin]), Path.steps_join_of_ne hne,
    Path.isAbsolute_join_of_ne hne, List.foldlM_append, FileTree.folder]

theorem folder_join_of_ne (tree : FileTree) {directory : String} (hne : directory ≠ "") (name : String) :
    tree.folder (Path.join directory name) =
      tree.folder directory >>= fun place => (Path.named name).foldlM tree.step place := by
  rw [FileTree.folder, Path.named_join_of_ne hne, Path.isAbsolute_join_of_ne hne, List.foldlM_append,
    FileTree.folder]

/-- Following a route one component further. -/
theorem folder_concat (h : Path.Route route) (hpart : Path.IsPart part) :
    tree.folder (Path.ofComponents (route ++ [part])) =
      tree.folder (Path.ofComponents route) >>= (tree.step · part) := by
  rw [h.ofComponents_concat hpart, folder_join tree _ hpart]

/-! ## Parts that name nothing -/

variable {parts : List String} {fault : FileFault}

theorem step_dot_eq_ok : tree.step start "." = .ok place ↔ tree.node? start = some .directory ∧ start = place := by
  rw [step_eq_ok, if_pos rfl]

/-- What a `.` does not let through, nothing gets through. -/
theorem step_of_dot_error (h : tree.step start "." = .error fault) (part : String) :
    tree.step start part = .error fault := by
  unfold step at h ⊢
  cases hnode : tree.node? start with
  | none => simpa [hnode] using h
  | some node =>
    cases node with
    | directory => simp [hnode] at h
    | file content => simpa [hnode] using h

theorem foldlM_names_of_ok (h : parts.foldlM tree.step start = .ok place) :
    (parts.filter (· != ".")).foldlM tree.step start = .ok place := by
  induction parts generalizing start with
  | nil => exact h
  | cons part parts ih =>
    obtain ⟨next, hnext, h⟩ := bind_eq_ok.1 (List.foldlM_cons.symm.trans h)
    by_cases hdot : part = "."
    · subst hdot
      obtain ⟨-, rfl⟩ := step_dot_eq_ok.1 hnext
      exact ih h
    · rw [List.filter_cons_of_pos (by simpa using hdot), List.foldlM_cons]
      exact bind_eq_ok.2 ⟨next, hnext, ih h⟩

theorem foldlM_of_names_error (h : (parts.filter (· != ".")).foldlM tree.step start = .error fault) :
    parts.foldlM tree.step start = .error fault := by
  induction parts generalizing start with
  | nil => exact h
  | cons part parts ih =>
    rw [List.foldlM_cons]
    by_cases hdot : part = "."
    · subst hdot
      rw [List.filter_cons_of_neg (by decide)] at h
      cases hstep : tree.step start "." with
      | ok next =>
        obtain ⟨-, rfl⟩ := step_dot_eq_ok.1 hstep
        exact ih h
      | error fault' =>
        cases hnames : parts.filter (· != ".") with
        | nil =>
          rw [hnames] at h
          cases h
        | cons name names =>
          rw [hnames, List.foldlM_cons, step_of_dot_error hstep] at h
          exact h
    · rw [List.filter_cons_of_pos (by simpa using hdot), List.foldlM_cons] at h
      cases hstep : tree.step start part with
      | error fault' =>
        rw [hstep] at h
        exact h
      | ok next =>
        rw [hstep] at h
        exact ih h

theorem directory_of_foldlM (hnode : tree.node? place = some .directory)
    (h : parts.foldlM tree.step start = .ok place) : tree.node? start = some .directory := by
  cases parts with
  | nil =>
    cases h
    exact hnode
  | cons part parts =>
    obtain ⟨next, hnext, -⟩ := bind_eq_ok.1 (List.foldlM_cons.symm.trans h)
    exact (step_eq_ok.1 hnext).1

/-- A directory that names lead to is also reached with a `.` between them. -/
theorem foldlM_of_names (hnode : tree.node? place = some .directory)
    (h : (parts.filter (· != ".")).foldlM tree.step start = .ok place) :
    parts.foldlM tree.step start = .ok place := by
  induction parts generalizing start with
  | nil => exact h
  | cons part parts ih =>
    rw [List.foldlM_cons]
    by_cases hdot : part = "."
    · subst hdot
      rw [List.filter_cons_of_neg (by decide)] at h
      have hstart := directory_of_foldlM hnode h
      exact bind_eq_ok.2 ⟨start, step_dot_eq_ok.2 ⟨hstart, rfl⟩, ih h⟩
    · rw [List.filter_cons_of_pos (by simpa using hdot), List.foldlM_cons] at h
      obtain ⟨next, hnext, h⟩ := bind_eq_ok.1 h
      exact bind_eq_ok.2 ⟨next, hnext, ih h⟩

/-! ## Paths and their components -/

/-- The place that the components of a path lead to. -/
def componentsFolder (tree : FileTree) (path : String) : Except FileFault Place :=
  tree.folder (Path.ofComponents (Path.components path))

/-- What a path with a `.` at its end leads to is a directory. -/
theorem directory_of_endsInDot (hdot : Path.EndsInDot path) (h : tree.folder path = .ok place) :
    tree.node? place = some .directory := by
  obtain ⟨parts, hparts⟩ := List.getLast?_eq_some_iff.1 hdot
  rw [folder, hparts, List.foldlM_append] at h
  obtain ⟨start, -, h⟩ := bind_eq_ok.1 h
  obtain ⟨next, hnext, h⟩ := bind_eq_ok.1 (List.foldlM_cons.symm.trans h)
  cases h
  obtain ⟨hnode, rfl⟩ := step_dot_eq_ok.1 hnext
  exact hnode

section

variable (hne : path ≠ "")
include hne

theorem exists_foldlM : ∃ (lead : Except FileFault Place) (rest : List String),
    tree.folder path = lead >>= rest.foldlM tree.step ∧
    tree.componentsFolder path = lead >>= (rest.filter (· != ".")).foldlM tree.step ∧
    (rest = [] ∨ rest.getLast? = (Path.named path).getLast?) := by
  obtain ⟨habsolute, lead, rest, hnamed, hnames⟩ := Path.exists_named_eq hne
  refine ⟨lead.foldlM tree.step (if Path.isAbsolute path then [] else tree.workingDirectory), rest, ?_, ?_, ?_⟩
  · rw [folder, hnamed, List.foldlM_append]
  · rw [componentsFolder, folder, hnames, habsolute, List.foldlM_append]
  · refine or_iff_not_imp_left.2 fun hrest => ?_
    rw [hnamed, List.getLast?_append_of_ne_nil _ hrest]

theorem componentsFolder_of_folder (h : tree.folder path = .ok place) :
    tree.componentsFolder path = .ok place := by
  obtain ⟨lead, rest, hfolder, hcomponents, -⟩ := @exists_foldlM tree path hne
  rw [hfolder] at h
  obtain ⟨start, hstart, h⟩ := bind_eq_ok.1 h
  rw [hcomponents]
  exact bind_eq_ok.2 ⟨start, hstart, foldlM_names_of_ok h⟩

theorem folder_of_error (h : tree.componentsFolder path = .error fault) : tree.folder path = .error fault := by
  obtain ⟨lead, rest, hfolder, hcomponents, -⟩ := @exists_foldlM tree path hne
  rw [hcomponents] at h
  rw [hfolder]
  cases lead with
  | error fault' => exact h
  | ok start => exact foldlM_of_names_error h

/-- A path that does not end in a `.` leads as far as its components do. -/
theorem folder_of_componentsFolder (hdot : ¬ Path.EndsInDot path) (h : tree.componentsFolder path = .ok place) :
    tree.folder path = .ok place := by
  obtain ⟨lead, rest, hfolder, hcomponents, hlast⟩ := @exists_foldlM tree path hne
  rw [hcomponents] at h
  obtain ⟨start, hstart, h⟩ := bind_eq_ok.1 h
  rw [hfolder]
  refine bind_eq_ok.2 ⟨start, hstart, ?_⟩
  cases rest using List.reverseRecOn with
  | nil => exact h
  | append_singleton parts last =>
    have hname : last ≠ "." := by
      rintro rfl
      rcases hlast with hnil | hlast
      · exact absurd hnil (List.concat_ne_nil _ _)
      · exact hdot (hlast.symm.trans List.getLast?_concat)
    rw [List.filter_append, List.filter_cons_of_pos (by simpa using hname), List.filter_nil, List.foldlM_append] at h
    obtain ⟨directory, hdirectory, h⟩ := bind_eq_ok.1 h
    rw [List.foldlM_append]
    obtain ⟨next, hnext, -⟩ := bind_eq_ok.1 (List.foldlM_cons.symm.trans h)
    exact bind_eq_ok.2 ⟨directory, foldlM_of_names (step_eq_ok.1 hnext).1 hdirectory, h⟩

end

end FileTree

end ModelBinding
