import ModelBinding.Proofs.Files.Making

/-!
# Missing directories

A path lacks a directory if that is not there but can be made. Where nothing leads back up, all that comes
after it is made as well, and a new directory is empty. This needs a tree in which everything is in a
directory, which making directories keeps.
-/
namespace ModelBinding

namespace FileTree

variable {tree made : FileTree} {path : String} {place : Place} {route above below : List String}

/-! ## Closed trees -/

/-- Everything is in a directory. -/
def Closed (tree : FileTree) : Prop :=
  ∀ place, tree.node? place ≠ none → tree.node? place.dropLast = some .directory

/-- Only directories have something in them. -/
theorem Closed.node?_below (h : tree.Closed) (hnode : tree.node? place ≠ some .directory) (name : String) :
    tree.node? (place ++ [name]) = none := by
  by_contra hbelow
  have hparent := h _ hbelow
  rw [List.dropLast_concat] at hparent
  exact hnode hparent

/-- What is put into a directory, and not in the place of one, leaves everything in a directory. -/
theorem Closed.put {node : FileNode} (h : tree.Closed) (hplace : tree.node? place ≠ some .directory)
    (hparent : tree.node? place.dropLast = some .directory) : (tree.put place node).Closed := by
  have hkeeps := @keeps_put tree place node hplace
  intro other hother
  by_cases heq : other = place
  · rw [heq]
    exact hkeeps.directory _ hparent
  · rw [node?_put_of_ne tree _ heq] at hother
    exact hkeeps.directory _ (h other hother)

/-- Where a step leads to nothing, it was a step down. -/
theorem Closed.eq_of_step (h : tree.Closed) {start : Place} {part : String}
    (hstep : tree.step start part = .ok place) (hnode : tree.node? place = none) :
    tree.node? start = some .directory ∧ place = start ++ [part] := by
  obtain ⟨hstart, hplace⟩ := step_eq_ok.1 hstep
  refine ⟨hstart, ?_⟩
  split_ifs at hplace with hdot hdots
  · rw [← hplace, hstart] at hnode
    cases hnode
  · have hparent := h start (hstart.trans_ne fun h => nomatch h)
    rw [← hplace, hparent] at hnode
    cases hnode
  · exact hplace.symm

/-- Where components lead but nothing is, there is a directory above. -/
theorem Closed.parent (h : tree.Closed) (hroute : Path.Route route) (hne : route ≠ [])
    (hplace : tree.folder (Path.ofComponents route) = .ok place) (hnode : tree.node? place = none) :
    tree.node? place.dropLast = some .directory := by
  cases hroute with
  | here => exact absurd rfl hne
  | root =>
    cases hplace
    cases hnode
  | down above last =>
    rw [folder_concat above last] at hplace
    obtain ⟨start, -, hstep⟩ := bind_eq_ok.1 hplace
    obtain ⟨hstart, rfl⟩ := h.eq_of_step hstep hnode
    rwa [List.dropLast_concat]

theorem Closed.withDirectory (h : tree.Closed) (hne : path ≠ "") : (tree.withDirectory path).Closed := by
  cases hmake : tree.makeDirectory path with
  | error fault => rwa [withDirectory_of_error hmake]
  | ok made =>
    obtain ⟨place, hplace, hnode, rfl⟩ := (makeDirectory_eq_ok hne).1 hmake
    rw [withDirectory_of_ok hmake]
    refine h.put (ne_directory_of_missing hnode) ?_
    exact h.parent (Path.route_components path) (Path.components_ne_nil hne)
      (componentsFolder_of_folder hne hplace) hnode

theorem Closed.madeAbove (h : tree.Closed) (hroute : Path.Route route) :
    (tree.madeAbove route.reverse).Closed := by
  induction hroute with
  | here => exact h
  | root => exact h.withDirectory (by decide)
  | down above last ih =>
    rw [madeAbove_concat]
    exact ih.withDirectory ((above.down last).ofComponents_ne_empty
      (List.concat_ne_nil _ _))

theorem Closed.madeTo (h : tree.Closed) (hne : path ≠ "") : (tree.madeTo path).Closed := by
  obtain ⟨route, part, hcomponents, hroute, -⟩ := Path.exists_components_eq hne
  rw [madeTo_of_components hcomponents]
  exact (h.madeAbove hroute).withDirectory hne

theorem Closed.of_write {directory name text : String} {tree' : FileTree} (h : tree.Closed)
    (hname : Path.IsFileName name) (hwrite : tree.write (Path.join directory name) text = .ok tree') :
    tree'.Closed := by
  obtain ⟨place, hplace, hnode, rfl⟩ := write_eq_ok.1 hwrite
  obtain ⟨folder, -, hfolder, rfl⟩ := (locate_join_eq_ok hname).1 hplace
  exact h.put hnode (by rwa [List.dropLast_concat])

/-! ## What is lacking -/

/-- The directory of some components of a path is not there but can be made; the others go on from it. -/
structure Lacks (tree : FileTree) (path : String) (above below : List String) : Prop where
  components : Path.components path = above ++ below
  makeable : ∃ made, tree.makeDirectory (Path.ofComponents above) = .ok made

theorem Lacks.route_append (h : tree.Lacks path above below) : Path.Route (above ++ below) :=
  h.components ▸ Path.route_components path

theorem Lacks.above_ne_nil (h : tree.Lacks path above below) : above ≠ [] := by
  obtain ⟨made, hmade⟩ := h.makeable
  rintro rfl
  cases hmade

/-- Where the missing directory would be. -/
theorem Lacks.exists_place (h : tree.Lacks path above below) : ∃ place,
    tree.folder (Path.ofComponents above) = .ok place ∧ tree.node? place = none := by
  obtain ⟨made, hmade⟩ := h.makeable
  have hne := h.route_append.of_append.ofComponents_ne_empty h.above_ne_nil
  obtain ⟨place, hplace, hnode, -⟩ := (makeDirectory_eq_ok hne).1 hmade
  exact ⟨place, hplace, hnode⟩

/-- Below what is missing nothing is found. -/
theorem folder_below_missing (hroute : Path.Route (above ++ below)) (habove : above ≠ []) (hbelow : below ≠ [])
    (hplace : tree.folder (Path.ofComponents above) = .ok place) (hnode : tree.node? place = none) :
    ∃ fault, tree.folder (Path.ofComponents (above ++ below)) = .error fault := by
  induction below using List.reverseRecOn with
  | nil => exact absurd rfl hbelow
  | append_singleton below part ih =>
    rw [← List.append_assoc] at hroute ⊢
    have hne : above ++ below ≠ [] := List.append_ne_nil_of_left_ne_nil habove _
    rw [folder_concat hroute.of_concat (hroute.isPart_of_concat.resolve_left hne)]
    by_cases hnil : below = []
    · subst hnil
      rw [List.append_nil, hplace]
      exact exists_step_error (ne_directory_of_missing hnode) part
    · obtain ⟨fault, hfault⟩ := ih hroute.of_concat hnil
      exact ⟨fault, by rw [hfault]; rfl⟩

theorem exists_folder_of_kind? {kind : FileKind} (h : tree.kind? path = some kind) :
    ∃ place node, tree.folder path = .ok place ∧ tree.node? place = some node := by
  obtain ⟨place, node, hplace, hnode, -⟩ := kind?_eq_some.1 h
  exact ⟨place, node, folder_of_locate hplace, hnode⟩

theorem ne_empty_of_kind? {kind : FileKind} (h : tree.kind? path = some kind) : path ≠ "" := by
  rintro rfl
  cases h

/-- Nothing is at a path that lacks a directory. -/
theorem Lacks.kind?_eq_none (h : tree.Lacks path above below) : tree.kind? path = none := by
  by_contra hkind
  obtain ⟨kind, hkind⟩ := Option.ne_none_iff_exists'.1 hkind
  obtain ⟨place, node, hfolder, hnode⟩ := exists_folder_of_kind? hkind
  obtain ⟨missing, hmissing, hnone⟩ := h.exists_place
  have hcomponents := componentsFolder_of_folder (ne_empty_of_kind? hkind) hfolder
  rw [componentsFolder, h.components] at hcomponents
  by_cases hbelow : below = []
  · subst hbelow
    rw [List.append_nil, hmissing] at hcomponents
    cases hcomponents
    rw [hnone] at hnode
    cases hnode
  · obtain ⟨fault, hfault⟩ :=
      folder_below_missing h.route_append h.above_ne_nil hbelow hmissing hnone
    rw [hfault] at hcomponents
    cases hcomponents

theorem madeAbove_eq_self (h : ∀ above below, route = above ++ below →
    ∀ made, tree.makeDirectory (Path.ofComponents above) ≠ .ok made) : tree.madeAbove route.reverse = tree := by
  induction route using List.reverseRecOn with
  | nil => rfl
  | append_singleton route part ih =>
    have hself := ih fun above below heq => h above (below ++ [part]) (by rw [heq, List.append_assoc])
    rw [madeAbove_concat, hself]
    cases hmake : tree.makeDirectory (Path.ofComponents (route ++ [part])) with
    | error fault => exact withDirectory_of_error hmake
    | ok made => exact absurd hmake (h _ [] (List.append_nil _).symm made)

theorem keeps_madeAbove (tree : FileTree) (hroute : Path.Route (above ++ below)) :
    (tree.madeAbove above.reverse).Keeps (tree.madeAbove (above ++ below).reverse) := by
  induction below using List.reverseRecOn with
  | nil =>
    rw [List.append_nil]
    exact .rfl
  | append_singleton below part ih =>
    rw [← List.append_assoc] at hroute ⊢
    rw [madeAbove_concat]
    exact (ih hroute.of_concat).trans (keeps_withDirectory _ (hroute.ofComponents_ne_empty
      (List.concat_ne_nil _ _)))

/-- The missing directory is the first that is made. -/
theorem madeAbove_of_missing (hroute : Path.Route above) (habove : above ≠ [])
    (hplace : tree.folder (Path.ofComponents above) = .ok place) :
    tree.madeAbove above.reverse = tree.withDirectory (Path.ofComponents above) := by
  cases hroute with
  | here => exact absurd rfl habove
  | root => rfl
  | down above last =>
    rw [madeAbove_concat, madeAbove_of_folder above last (hplace.trans_ne (by simp))]

/-- A new directory is empty. -/
theorem Closed.new_directory (h : tree.Closed) (hne : path ≠ "") (hplace : tree.folder path = .ok place)
    (hnode : tree.node? place = none) : (tree.withDirectory path).HasDirectory path place ∧
      ∀ name, (tree.withDirectory path).node? (place ++ [name]) = none := by
  have hmissing := ne_directory_of_missing hnode
  rw [withDirectory_of_ok ((makeDirectory_eq_ok hne).2 ⟨place, hplace, hnode, rfl⟩)]
  refine ⟨⟨(keeps_put hmissing).folder hplace, node?_put_self tree _ (ne_root_of_node? hmissing)⟩, fun name => ?_⟩
  have hbelow : place ++ [name] ≠ place := by simp
  rw [node?_put_of_ne tree _ hbelow, h.node?_below hmissing]

/-- From a missing directory straight down every directory is made, and each is as empty as the first. -/
theorem Closed.madeAbove_below (h : tree.Closed) (hroute : Path.Route (above ++ below)) (habove : above ≠ [])
    (hplace : tree.folder (Path.ofComponents above) = .ok place) (hnode : tree.node? place = none)
    (hnames : ∀ name ∈ below, name ≠ "." ∧ name ≠ "..") :
    (tree.madeAbove (above ++ below).reverse).HasDirectory (Path.ofComponents (above ++ below)) (place ++ below) ∧
    ∀ name, (tree.madeAbove (above ++ below).reverse).node? (place ++ below ++ [name]) = none := by
  induction below using List.reverseRecOn with
  | nil =>
    rw [List.append_nil] at hroute ⊢
    rw [List.append_nil, madeAbove_of_missing hroute habove hplace]
    exact h.new_directory (hroute.ofComponents_ne_empty habove) hplace hnode
  | append_singleton below part ih =>
    obtain ⟨hbelow, hlast⟩ := List.forall_mem_append.1 hnames
    obtain ⟨hdot, hdots⟩ := hlast part List.mem_cons_self
    rw [← List.append_assoc] at hroute
    rw [← List.append_assoc, ← List.append_assoc, madeAbove_concat]
    have hne : above ++ below ≠ [] := List.append_ne_nil_of_left_ne_nil habove _
    obtain ⟨⟨hfolder, hdirectory⟩, hempty⟩ := ih hroute.of_concat hbelow
    refine (h.madeAbove hroute.of_concat).new_directory (hroute.ofComponents_ne_empty
      (List.concat_ne_nil _ _)) ?_ (hempty part)
    rw [folder_concat hroute.of_concat (hroute.isPart_of_concat.resolve_left hne), hfolder]
    exact step_eq_ok.2 ⟨hdirectory, by rw [if_neg hdot, if_neg hdots]⟩

theorem Lacks.ne_dot (h : tree.Lacks path above below) {name : String} (hname : name ∈ below) : name ≠ "." := by
  obtain ⟨first, rest, rfl⟩ := List.exists_cons_of_ne_nil h.above_ne_nil
  exact Path.ne_dot_of_components h.components (List.mem_append_right rest hname)

/-- With its parents made, a path that goes straight down leads to where its directory is missing. -/
theorem Lacks.exists_place_above {part : String} (hclosed : tree.Closed) (h : tree.Lacks path above below)
    (hdots : ".." ∉ below) (hcomponents : Path.components path = route ++ [part]) : ∃ place,
      (tree.madeAbove route.reverse).componentsFolder path = .ok place ∧
      (tree.madeAbove route.reverse).node? place = none := by
  obtain ⟨place, hplace, hnode⟩ := h.exists_place
  have hroute := h.route_append
  have hnames : ∀ name ∈ below, name ≠ "." ∧ name ≠ ".." := fun name hname =>
    ⟨h.ne_dot hname, fun heq => hdots (heq ▸ hname)⟩
  have hwhole := hcomponents.symm.trans h.components
  rw [componentsFolder, hcomponents]
  cases below using List.reverseRecOn with
  | nil =>
    rw [List.append_nil] at hwhole
    obtain rfl := hwhole
    have hself : tree.madeAbove route.reverse = tree := by
      rcases hroute.of_append.isPart_of_concat with rfl | hpart
      · rfl
      · exact madeAbove_of_folder hroute.of_append.of_concat hpart (hplace.trans_ne (by simp))
    rw [hself]
    exact ⟨place, hplace, hnode⟩
  | append_singleton below last =>
    obtain ⟨hbelow, hlast⟩ := List.forall_mem_append.1 hnames
    obtain ⟨hdot, hdots'⟩ := hlast last List.mem_cons_self
    rw [← List.append_assoc] at hroute hwhole
    obtain ⟨rfl, hpart⟩ := List.append_inj' hwhole rfl
    obtain rfl := List.singleton_inj.1 hpart
    have hne : above ++ below ≠ [] := List.append_ne_nil_of_left_ne_nil h.above_ne_nil _
    obtain ⟨⟨hfolder, hdirectory⟩, hempty⟩ :=
      hclosed.madeAbove_below hroute.of_concat h.above_ne_nil hplace hnode hbelow
    refine ⟨place ++ below ++ [part], ?_, hempty part⟩
    rw [folder_concat hroute.of_concat (hroute.isPart_of_concat.resolve_left hne), hfolder]
    exact step_eq_ok.2 ⟨hdirectory, by rw [if_neg hdot, if_neg hdots']⟩

/--
A directory that is lacking straight below is made, with nothing in it. Only a `.` at the end of the path
asks for it too early.
-/
theorem Lacks.madeTo (hclosed : tree.Closed) (hne : path ≠ "") (h : tree.Lacks path above below)
    (hdots : ".." ∉ below) : if Path.EndsInDot path then (tree.madeTo path).kind? path ≠ some .directory
      else ∃ place, (tree.madeTo path).HasDirectory path place ∧
        ∀ name, (tree.madeTo path).node? (place ++ [name]) = none := by
  obtain ⟨route, part, hcomponents, hroute, -⟩ := Path.exists_components_eq hne
  obtain ⟨place, hplace, hnode⟩ := h.exists_place_above hclosed hdots hcomponents
  rw [madeTo_of_components hcomponents]
  split_ifs with hdot
  · cases hfolder : (tree.madeAbove route.reverse).folder path with
    | error fault =>
      rw [withDirectory_of_folder hne hfolder]
      exact kind?_of_folder hne hfolder
    | ok place' =>
      have hdirectory := directory_of_endsInDot hdot hfolder
      obtain rfl := Except.ok.inj (hplace.symm.trans (componentsFolder_of_folder hne hfolder))
      rw [hnode] at hdirectory
      cases hdirectory
  · exact ⟨place,
      (hclosed.madeAbove hroute).new_directory hne (folder_of_componentsFolder hne hdot hplace) hnode⟩

/-- Without a directory to be made above, only that of the path itself can be made. -/
theorem madeTo_of_not_lacks (hne : path ≠ "") (h : ∀ above below, below ≠ [] → ¬ tree.Lacks path above below) :
    tree.madeTo path = tree.withDirectory path := by
  obtain ⟨route, part, hcomponents, -, -⟩ := Path.exists_components_eq hne
  rw [madeTo_of_components hcomponents, madeAbove_eq_self]
  intro above below hroute made hmade
  refine h above (below ++ [part]) (List.concat_ne_nil _ _) ⟨?_, made, hmade⟩
  rw [hcomponents, hroute, List.append_assoc]

theorem lacks_of_makeDirectory (hne : path ≠ "") (h : tree.makeDirectory path = .ok made) :
    tree.Lacks path (Path.components path) [] := by
  obtain ⟨place, hplace, hnode, -⟩ := (makeDirectory_eq_ok hne).1 h
  have hroute := (Path.route_components path).ofComponents_ne_empty (Path.components_ne_nil hne)
  exact ⟨(List.append_nil _).symm, _,
    (makeDirectory_eq_ok hroute).2 ⟨place, componentsFolder_of_folder hne hplace, hnode, rfl⟩⟩

/-- What lacks nothing is left as it is. -/
theorem madeTo_eq_self (hne : path ≠ "") (h : ∀ above below, ¬ tree.Lacks path above below) :
    tree.madeTo path = tree := by
  rw [madeTo_of_not_lacks hne fun above below _ => h above below]
  cases hmake : tree.makeDirectory path with
  | error fault => exact withDirectory_of_error hmake
  | ok made => exact absurd (lacks_of_makeDirectory hne hmake) (h _ _)

/-- A directory above a path that is lacking is made, whatever comes of the path. -/
theorem Lacks.exists_made (hne : path ≠ "") (h : tree.Lacks path above below) (hbelow : below ≠ []) :
    ∃ place, tree.node? place = none ∧ (tree.madeTo path).node? place = some .directory := by
  obtain ⟨place, hplace, hnode⟩ := h.exists_place
  have habove := h.route_append.of_append.ofComponents_ne_empty h.above_ne_nil
  have hmake := (makeDirectory_eq_ok habove).2 ⟨place, hplace, hnode, rfl⟩
  have hroot : place ≠ [] := by
    rintro rfl
    cases hnode
  cases below using List.reverseRecOn with
  | nil => exact absurd rfl hbelow
  | append_singleton below part =>
    have hroute := h.route_append
    rw [← List.append_assoc] at hroute
    rw [madeTo_of_components (h.components.trans (List.append_assoc _ _ _).symm)]
    refine ⟨place, hnode, ((keeps_madeAbove tree hroute.of_concat).trans (keeps_withDirectory _ hne)).directory _ ?_⟩
    rw [madeAbove_of_missing hroute.of_concat.of_append h.above_ne_nil hplace, withDirectory_of_ok hmake,
      node?_put_self tree _ hroot]

end FileTree

end ModelBinding
