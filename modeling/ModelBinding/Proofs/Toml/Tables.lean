import ModelBinding.Proofs.Entries
import ModelBinding.Proofs.Toml.Lines

/-!
# Filling the tables that were written in TOML

The sections of a table are filled in one after the other. A header opens its table at the end of the
table around it, and the sections after it stay inside until that table is complete, so every table is
filled exactly with what it was written for.
-/
namespace ModelBinding.Toml

/-- Open the table of each section and fill it, one after the other. -/
def fillSections : List Section → Entries → Option Entries
  | [], entries => some entries
  | sec :: rest, entries => (insertTable sec.path sec.pairs entries).bind (fillSections rest)

/-! ## From lines to sections -/

theorem leadingPairs_pairLines (pairs : List (List String × Node)) {ls : List Line}
    (h : leadingPairs ls = ([], ls)) : leadingPairs (pairLines pairs ++ ls) = (pairs, ls) := by
  induction pairs with
  | nil => exact h
  | cons pair pairs ih =>
    rw [pairLines, List.map_cons, List.cons_append, leadingPairs]
    rw [pairLines] at ih
    rw [ih]

theorem leadingPairs_sectionLines (sections : List Section) :
    leadingPairs (sectionLines sections) = ([], sectionLines sections) := by
  cases sections with
  | nil => rfl
  | cons sec sections => rfl

section Lines

variable {ls rest : List Line} {pairs : List (List String × Node)} {entries : Entries}

theorem insertSections_nil (entries : Entries) : insertSections [] entries = some entries := by
  rw [insertSections]

/-- Pairs at the beginning go where they stand. -/
theorem insertSections_of_leadingPairs (h : leadingPairs ls = (pairs, rest)) :
    insertSections ls entries = (insertPairs pairs entries).bind (insertSections rest) := by
  induction ls generalizing pairs entries with
  | nil =>
    cases h
    rfl
  | cons l ls ih =>
    cases l with
    | pair path node =>
      rcases hrest : leadingPairs ls with ⟨pairs', rest'⟩
      rw [leadingPairs, hrest] at h
      cases h
      rw [insertSections, insertPairs, Option.bind_assoc]
      congr 1
      funext inserted
      exact ih hrest
    | table path =>
      cases h
      rfl
    | arrayTable path =>
      cases h
      rfl

/-- A header takes the pairs after it into its table. -/
theorem insertSections_table (path : List String) (h : leadingPairs ls = (pairs, rest)) :
    insertSections (.table path :: ls) entries =
      (insertTable path pairs entries).bind (insertSections rest) := by
  rw [insertSections, h]

end Lines

theorem insertSections_sectionLines (sections : List Section) (entries : Entries) :
    insertSections (sectionLines sections) entries = fillSections sections entries := by
  induction sections generalizing entries with
  | nil => exact insertSections_nil entries
  | cons sec sections ih =>
    have hpairs := leadingPairs_pairLines sec.pairs (leadingPairs_sectionLines sections)
    have hlines : sectionLines (sec :: sections) =
        .table sec.path :: (pairLines sec.pairs ++ sectionLines sections) := rfl
    rw [hlines, insertSections_table sec.path hpairs, fillSections]
    congr 1
    funext inserted
    exact ih inserted

/-! ## Filling one table -/

theorem insertPairs_singletons {nodes start : Entries} (h : ((start ++ nodes).map Prod.fst).Nodup) :
    insertPairs (nodes.map fun (name, node) => ([name], node)) start = some (start ++ nodes) := by
  induction nodes generalizing start with
  | nil => rw [List.append_nil]; rfl
  | cons entry nodes ih =>
    obtain ⟨name, node⟩ := entry
    have hnew : start.lookup name = none := by
      apply lookup_eq_none_of_notMem
      rw [List.map_append, List.map_cons] at h
      exact fun hmem => (List.disjoint_of_nodup_append h) hmem (by simp)
    have hinsert : insertPair [name] node start = some (start ++ [(name, node)]) := by
      simp [insertPair, changeAt, hnew]
    have happend : start ++ (name, node) :: nodes = start ++ [(name, node)] ++ nodes := by simp
    rw [List.map_cons, insertPairs, hinsert, Option.bind_some, happend]
    exact ih (happend ▸ h)

section Header

variable {name : String} {entries inner : Entries} {origin : Origin} {path : List String}
  {pairs : List (List String × Node)}

/-- How the table came about that a path starts from does not matter for a change that does not ask. -/
theorem changeAt_origin {fresh : Origin} (change : Entries → Option Entries) (path : List String)
    (origin other : Origin) (entries : Entries) :
    changeAt fresh (fun _ inner => change inner) path origin entries =
      changeAt fresh (fun _ inner => change inner) path other entries := by
  cases path with
  | nil => rfl
  | cons key path => rfl

theorem getLast?_cons_of_ne_nil (name : String) (hpath : path ≠ []) :
    ∃ key, path.getLast? = some key ∧ (name :: path).getLast? = some key := by
  obtain ⟨key, hkey⟩ := Option.ne_none_iff_exists'.1 (mt List.getLast?_eq_none_iff.1 hpath)
  refine ⟨key, hkey, ?_⟩
  rw [List.getLast?_cons, hkey]
  rfl

theorem insertTable_new (h : name ∉ entries.map Prod.fst) : insertTable [name] pairs entries =
    (insertPairs pairs []).map fun filled => entries ++ [(name, .table .header filled)] := by
  simp [insertTable, changeAt, lookup_eq_none_of_notMem h]

/-- A header further down makes the table that it leads through. -/
theorem insertTable_through_new (hpath : path ≠ []) (h : name ∉ entries.map Prod.fst) :
    insertTable (name :: path) pairs entries =
      (insertTable path pairs []).map fun inner => entries ++ [(name, .table .implied inner)] := by
  obtain ⟨key, hkey, hlast⟩ := getLast?_cons_of_ne_nil name hpath
  rw [insertTable, hlast, insertTable, hkey, List.dropLast_cons_of_ne_nil hpath]
  dsimp only
  rw [changeAt, lookup_eq_none_of_notMem h]
  dsimp only
  rw [changeAt_origin]

theorem lookup_append_self (h : name ∉ entries.map Prod.fst) (node : Node) :
    (entries ++ [(name, node)]).lookup name = some node := by
  rw [List.lookup_append, lookup_eq_none_of_notMem h, Option.none_or, List.lookup_cons_self]

theorem replaceNode_append_self (h : name ∉ entries.map Prod.fst) (node other : Node) :
    replaceNode name other (entries ++ [(name, node)]) = entries ++ [(name, other)] := by
  have hkept : entries.map (fun entry => if entry.1 = name then (name, other) else entry) = entries := by
    refine (List.map_congr_left fun entry hentry => if_neg ?_).trans (List.map_id' entries)
    exact fun hname => h (hname ▸ List.mem_map_of_mem hentry)
  rw [replaceNode, List.map_append, hkept]
  simp

/-- A header further down fills in the table that is last. -/
theorem insertTable_through_last (hpath : path ≠ []) (h : name ∉ entries.map Prod.fst) :
    insertTable (name :: path) pairs (entries ++ [(name, .table origin inner)]) =
      (insertTable path pairs inner).map fun inner => entries ++ [(name, .table origin inner)] := by
  obtain ⟨key, hkey, hlast⟩ := getLast?_cons_of_ne_nil name hpath
  rw [insertTable, hlast, insertTable, hkey, List.dropLast_cons_of_ne_nil hpath]
  dsimp only
  rw [changeAt, lookup_append_self h]
  dsimp only
  rw [if_neg fun hdotted => nomatch hdotted.1]
  simp only [replaceNode_append_self h]
  exact congrArg _ (changeAt_origin _ path.dropLast origin .header inner)

variable {sections : List Section}

/-- What the first section does below a name, and what the others do after it, all of them do. -/
theorem fillSections_under_cons {sec : Section} {wrap : Entries → Entries}
    (hinsert : insertTable (name :: sec.path) sec.pairs entries =
      (insertTable sec.path sec.pairs inner).map wrap)
    (hmore : ∀ filled, fillSections (sections.map (Section.under [name])) (wrap filled) =
      (fillSections sections filled).map wrap) :
    fillSections ((sec :: sections).map (Section.under [name])) entries =
      (fillSections (sec :: sections) inner).map wrap := by
  rw [List.map_cons, fillSections, fillSections]
  change (insertTable (name :: sec.path) sec.pairs _).bind _ = _
  rw [hinsert, Option.bind_map, Option.map_bind]
  congr 1
  funext filled
  exact hmore filled

theorem fillSections_under_last (hpaths : ∀ sec ∈ sections, sec.path ≠ [])
    (h : name ∉ entries.map Prod.fst) :
    fillSections (sections.map (Section.under [name])) (entries ++ [(name, .table origin inner)]) =
      (fillSections sections inner).map fun inner => entries ++ [(name, .table origin inner)] := by
  induction sections generalizing inner with
  | nil => rfl
  | cons sec sections ih =>
    obtain ⟨hpath, hmore⟩ := List.forall_mem_cons.1 hpaths
    exact fillSections_under_cons (insertTable_through_last hpath h) fun filled => ih hmore

/-- The table that the first section leads through is made, and the others fill it in. -/
theorem fillSections_under_new (hne : sections ≠ []) (hpaths : ∀ sec ∈ sections, sec.path ≠ [])
    (h : name ∉ entries.map Prod.fst) :
    fillSections (sections.map (Section.under [name])) entries =
      (fillSections sections []).map fun inner => entries ++ [(name, .table .implied inner)] := by
  obtain ⟨sec, sections, rfl⟩ := List.exists_cons_of_ne_nil hne
  obtain ⟨hpath, hmore⟩ := List.forall_mem_cons.1 hpaths
  exact fillSections_under_cons (insertTable_through_new hpath h) fun filled =>
    fillSections_under_last hmore h

end Header

/-! ## Filling all tables -/

mutual

/-- The nodes of the tables in a table when all of them are filled. -/
def tableNodes : List (String × Value) → Entries
  | [] => []
  | (name, v) :: rest => (blockNode? v).toList.map (name, ·) ++ tableNodes rest

/-- A table with a header is opened by it, any other by a header further down. -/
def blockNode? : Value → Option Node
  | .table entries =>
    some (.table (if hasHeader entries then .header else .implied) (plainNodes entries ++ tableNodes entries))
  | _ => none

end

theorem exists_table_of_not_hasHeader {entries : List (String × Value)} (h : hasHeader entries = false) :
    ∃ entry ∈ entries, isTable entry.2 = true := by
  obtain ⟨hpresent, hplain⟩ := Bool.or_eq_false_iff.1 h
  obtain ⟨entry, hentry⟩ := List.exists_mem_of_ne_nil _ (List.isEmpty_eq_false_iff.1 hpresent)
  refine ⟨entry, (List.mem_filter.1 hentry).1, ?_⟩
  simpa using List.any_eq_false.1 hplain entry hentry

theorem path_ne_nil_of_mem_tableSections {entries : List (String × Value)} :
    ∀ sec ∈ tableSections entries, sec.path ≠ [] := by
  induction entries with
  | nil => exact fun sec hsec => nomatch hsec
  | cons entry entries ih =>
    intro sec hsec
    rw [tableSections] at hsec
    rcases List.mem_append.1 hsec with hsec | hsec
    · obtain ⟨inner, -, rfl⟩ := List.mem_map.1 hsec
      exact List.cons_ne_nil _ _
    · exact ih sec hsec

mutual

/-- Every table has a header or holds one that has. -/
theorem blockSections_ne_nil : (v : Value) → isTable v = true → blockSections v ≠ []
  | .table entries, _ => by
    rw [blockSections]
    split_ifs with hheader
    · exact List.cons_ne_nil _ _
    · exact tableSections_ne_nil entries (exists_table_of_not_hasHeader (eq_false_of_ne_true hheader))

theorem tableSections_ne_nil : (entries : List (String × Value)) →
    (∃ entry ∈ entries, isTable entry.2 = true) → tableSections entries ≠ []
  | [], h => by
    obtain ⟨_, hmem, -⟩ := h
    cases hmem
  | (name, v) :: entries, h => by
    rw [tableSections]
    cases hv : isTable v with
    | true => exact List.append_ne_nil_of_left_ne_nil (by simpa using blockSections_ne_nil v hv) _
    | false =>
      refine List.append_ne_nil_of_right_ne_nil _ (tableSections_ne_nil entries ?_)
      obtain ⟨entry, hmem, htable⟩ := h
      rcases List.mem_cons.1 hmem with rfl | hmem
      · rw [hv] at htable
        cases htable
      · exact ⟨entry, hmem, htable⟩

end

/-- What can be filled into a table: names that are new to it. -/
def Fits (entries : List (String × Value)) (nodes : Entries) : Prop :=
  (entries.map Prod.fst).Nodup ∧
    ∀ entry ∈ entries, isTable entry.2 = true → entry.1 ∉ nodes.map Prod.fst

theorem keys_plainNodes_sublist (entries : List (String × Value)) :
    ((plainNodes entries).map Prod.fst).Sublist (entries.map Prod.fst) := by
  induction entries with
  | nil => exact .slnil
  | cons entry entries ih =>
    obtain ⟨name, v⟩ := entry
    by_cases hplain : (isTable v || isNull v) = true
    · rw [plainNodes_cons_of_skipped hplain]
      exact ih.cons name
    · rw [plainNodes_cons_of_plain hplain]
      exact ih.cons_cons name

/-- The tables of a table are new to its plain values. -/
theorem fits_plainNodes {entries : List (String × Value)} (h : KeyOrdered entries) :
    Fits entries (plainNodes entries) := by
  refine ⟨h.nodup_keys, fun entry hentry htable hmem => ?_⟩
  obtain ⟨plain, hplain, hkey⟩ := List.mem_map.1 hmem
  obtain ⟨⟨key, v⟩, hv, hnode⟩ := List.mem_filterMap.1 hplain
  dsimp only at hnode
  split_ifs at hnode with hskipped
  cases hnode
  have hsame := List.inj_on_of_nodup_map h.nodup_keys hv hentry hkey
  rw [← hsame] at htable
  dsimp only at htable
  exact hskipped (by rw [htable]; rfl)

theorem insertPairs_plainPairs {entries : List (String × Value)} (h : (entries.map Prod.fst).Nodup) :
    insertPairs (plainPairs entries) [] = some (plainNodes entries) :=
  @insertPairs_singletons (plainNodes entries) [] (h.sublist (keys_plainNodes_sublist entries))

theorem fillSections_append (a b : List Section) (entries : Entries) :
    fillSections (a ++ b) entries = (fillSections a entries).bind (fillSections b) := by
  induction a generalizing entries with
  | nil => rfl
  | cons sec a ih =>
    rw [List.cons_append, fillSections, fillSections, Option.bind_assoc]
    congr 1
    funext filled
    exact ih filled

mutual

/-- The tables of a table are filled in behind what it holds already. -/
theorem fillSections_tableSections : (entries : List (String × Value)) → {depth : Nat} →
    RegularEntries depth entries → {nodes : Entries} → Fits entries nodes →
    fillSections (tableSections entries) nodes = some (nodes ++ tableNodes entries)
  | [], _, _, nodes, _ => by
    rw [tableNodes, List.append_nil]
    rfl
  | (name, v) :: entries, depth, hregular, nodes, hfits => by
    obtain ⟨hname, hnodup⟩ := List.nodup_cons.1 hfits.1
    have hnew := hfits.2 (name, v) (by simp)
    have hmore : Fits entries (nodes ++ (blockNode? v).toList.map (name, ·)) := by
      refine ⟨hnodup, fun entry hentry htable hmem => ?_⟩
      rw [List.map_append, List.mem_append] at hmem
      rcases hmem with hmem | hmem
      · exact hfits.2 entry (List.mem_cons_of_mem _ hentry) htable hmem
      · have hkey : entry.1 = name := by
          obtain ⟨node, hnode, hkey⟩ := List.mem_map.1 hmem
          obtain ⟨_, -, rfl⟩ := List.mem_map.1 hnode
          exact hkey.symm
        exact hname (List.mem_map.2 ⟨entry, hentry, hkey⟩)
    rw [tableSections, fillSections_append, fillSections_blockSections name v hregular.1 hnew, Option.bind_some,
      fillSections_tableSections entries hregular.2 hmore, tableNodes, List.append_assoc]

theorem fillSections_blockSections (name : String) : (v : Value) → {depth : Nat} → Regular depth v →
    {nodes : Entries} → (isTable v = true → name ∉ nodes.map Prod.fst) →
    fillSections ((blockSections v).map (Section.under [name])) nodes =
      some (nodes ++ (blockNode? v).toList.map (name, ·))
  | .table entries, depth, hregular, nodes, hnew => by
    have hnew := hnew rfl
    have hordered : KeyOrdered entries := hregular.2.1
    have hinner := fillSections_tableSections entries hregular.2.2 (fits_plainNodes hordered)
    rw [blockSections, blockNode?]
    split_ifs with hheader
    · have hopened : insertTable [name] (plainPairs entries) nodes =
          some (nodes ++ [(name, .table .header (plainNodes entries))]) := by
        rw [insertTable_new hnew, insertPairs_plainPairs hordered.nodup_keys]
        rfl
      rw [List.map_append, List.map_singleton, List.singleton_append, fillSections]
      change (insertTable [name] (plainPairs entries) nodes).bind _ = _
      rw [hopened, Option.bind_some, fillSections_under_last path_ne_nil_of_mem_tableSections hnew, hinner]
      rfl
    · have hnone := eq_false_of_ne_true hheader
      have hsome := tableSections_ne_nil entries (exists_table_of_not_hasHeader hnone)
      rw [plainNodes_of_not_hasHeader hnone] at hinner ⊢
      rw [List.nil_append, fillSections_under_new hsome path_ne_nil_of_mem_tableSections hnew, hinner]
      rfl
  | .null, _, _, nodes, _ | .boolean _, _, _, nodes, _ | .integer _, _, _, nodes, _
  | .unsigned _, _, _, nodes, _ | .float _, _, _, nodes, _ | .text _, _, _, nodes, _
  | .sequence _, _, _, nodes, _ => by
    simp [blockNode?, blockSections, fillSections]

end

end ModelBinding.Toml
