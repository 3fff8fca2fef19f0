import ModelBinding.Proofs.Toml.Values

/-!
# Reading what was written in TOML: lines

The plain values of a table are written a pair a line, and each table in it under a header with its path.
Read line by line, the text of a table is the list of these pairs and headers.
-/
namespace ModelBinding.Toml

variable {rest : List Char}

/-! ## What a table is written as -/

/-- The plain values of a table. -/
def plainNodes (entries : List (String × Value)) : Entries :=
  entries.filterMap fun (name, v) => if isTable v || isNull v then none else some (name, .value v)

def plainPairs (entries : List (String × Value)) : List (List String × Node) :=
  (plainNodes entries).map fun (name, node) => ([name], node)

/-- A header and the pairs under it. -/
structure Section where
  path : List String
  pairs : List (List String × Node)

/-- The section with its path taken from the table at `path`. -/
def Section.under (path : List String) (sec : Section) : Section := ⟨path ++ sec.path, sec.pairs⟩

def pairLines (pairs : List (List String × Node)) : List Line :=
  pairs.map fun (path, node) => .pair path node

def Section.lines (sec : Section) : List Line := .table sec.path :: pairLines sec.pairs

mutual

/-- The headers of the tables in a table, with their pairs. -/
def tableSections : List (String × Value) → List Section
  | [] => []
  | (name, v) :: rest => (blockSections v).map (Section.under [name]) ++ tableSections rest

/-- The header of a table and those of the tables in it. -/
def blockSections : Value → List Section
  | .table entries =>
    (if hasHeader entries then [⟨[], plainPairs entries⟩] else []) ++ tableSections entries
  | _ => []

end

mutual

/-- The tables of a value nest at most `depth` deep with their keys in order, and its arrays as deep as
the reader goes. -/
def Regular (depth : Nat) : Value → Prop
  | .table entries => 0 < depth ∧ KeyOrdered entries ∧ RegularEntries (depth - 1) entries
  | v => Nests maxDepth v

def RegularEntries (depth : Nat) : List (String × Value) → Prop
  | [] => True
  | (_, v) :: rest => Regular depth v ∧ RegularEntries depth rest

end

/-! ## Single lines -/

theorem lines_of_skipSpace_nil {s : List Char} (h : skipSpace false s = []) : lines s = some [] := by
  rw [lines]
  split
  · rfl
  · rename_i hs
    rw [h] at hs
    cases hs

theorem lines_cons {s t after next : List Char} {c : Char} {l : Line} (hs : skipSpace false s = c :: t)
    (h : line.Takes (c :: t) l after) (hend : lineEnd after = some next) :
    lines s = (lines next).map (l :: ·) := by
  obtain ⟨⟨_, _, hlt⟩, hread, rfl, rfl⟩ := h
  rw [lines]
  split
  · rename_i h
    rw [hs] at h
    cases h
  · rename_i h
    rw [hs] at h
    cases h
    rw [hread]
    dsimp only
    split
    · rename_i h
      rw [hend] at h
      cases h
    · rename_i h
      rw [hend] at h
      cases h
      rfl

theorem endsKey_equals (s : List Char) : EndsKey (' ' :: '=' :: s) where
  bare c hc := by
    cases hc
    rfl
  point h := nomatch h

theorem endsKey_bracket (s : List Char) : EndsKey (']' :: s) where
  bare c hc := by
    cases hc
    rfl
  point h := nomatch h

theorem takes_pair {item : Reader Node} (name : String) {node : Node} {s : List Char}
    (hblank : skipBlank s = s) (h : item.Takes s node rest) :
    (pair item).Takes (keyPart name ++ (" = ".toList ++ s)) ([name], node) rest := by
  have hkey := takes_key name [] (endsKey_equals (' ' :: s))
  rw [keyPath_cons, List.flatMap_nil, List.append_nil] at hkey
  obtain ⟨⟨path, after, hlt⟩, hkey, hpath, hafter⟩ := hkey
  dsimp only at hpath hafter
  subst hpath hafter
  have hequals : skipBlank (' ' :: '=' :: ' ' :: s) = '=' :: ' ' :: s := rfl
  have hitem : item.Takes (skipBlank (' ' :: s)) node rest := by
    have hspace : skipBlank (' ' :: s) = s := hblank
    rwa [hspace]
  obtain ⟨read, hread, rfl, rfl⟩ := hitem
  have htext : " = ".toList ++ s = ' ' :: '=' :: ' ' :: s := rfl
  unfold Reader.Takes pair
  rw [htext, hkey]
  dsimp only
  split
  · rename_i hb
    rw [hequals] at hb
    cases hb
    rw [if_pos (show [name].length ≤ maxDepth from Nat.le_of_ble_eq_true rfl), hread]
    exact ⟨_, rfl, rfl, rfl⟩
  · rename_i hb
    exact absurd hequals (hb _)

theorem takes_header {name : String} {path : List String} (hlength : (name :: path).length ≤ maxDepth)
    (rest : List Char) :
    (header false).Takes ('[' :: (keyPath (name :: path) ++ ']' :: rest)) (name :: path) rest := by
  have hkey := takes_key name path (endsKey_bracket rest)
  have hblank : skipBlank (keyPath (name :: path) ++ ']' :: rest) = keyPath (name :: path) ++ ']' :: rest := by
    rw [keyPath_cons, List.append_assoc, skipBlank_keyPart]
  rw [← hblank] at hkey
  obtain ⟨⟨taken, after, hlt⟩, hkey, htaken, hafter⟩ := hkey
  dsimp only at htaken hafter
  subst htaken hafter
  have hclose : after? [']'] (skipBlank (']' :: rest)) = some rest := rfl
  unfold Reader.Takes header
  dsimp only
  split
  · rename_i h
    cases hkey.symm.trans h
  · rename_i h
    cases hkey.symm.trans h
    split
    · rename_i h
      cases hclose.symm.trans h
    · rename_i h
      cases hclose.symm.trans h
      rw [if_pos hlength]
      exact ⟨_, rfl, rfl, rfl⟩

theorem line_of_ne_bracket {c : Char} (hc : c ≠ '[') (r : List Char) : line (c :: r) =
    (pair (value maxDepth) (c :: r)).map (Read.map fun (path, node) => .pair path node) := by
  rw [line]
  rintro s ⟨⟩
  exact hc rfl

/-! ## The lines of a table -/

/-- A pair with its value is a line of its own. -/
theorem lines_pair (name : String) {v : Value} {text : List Char} (h : IsRead maxDepth v text)
    (rest : List Char) : lines (keyPart name ++ (" = ".toList ++ (text ++ '\n' :: rest))) =
      (lines rest).map (.pair [name] (.value v) :: ·) := by
  have htext := h ('\n' :: rest) fun c hc => .inl (Option.some.inj hc).symm
  obtain ⟨_, _, hcr, -, hblank, -⟩ := eq_cons_of_takes_value htext
  have hpair := takes_pair name (by rw [hcr, skipBlank_cons hblank]) htext
  have hne : ∀ d, isBare d = false → d ≠ '"' ∧ d ≠ '\'' →
      (keyPart name ++ (" = ".toList ++ (text ++ '\n' :: rest))).head? ≠ some d :=
    fun d hbare hquote => head?_keyPart_ne hbare hquote name _
  obtain ⟨c, r, hname, -⟩ := keyPart_eq_cons name
  rw [hname, List.cons_append] at hpair hne ⊢
  have hc : ∀ d, isBare d = false → d ≠ '"' ∧ d ≠ '\'' → c ≠ d := fun d hbare hquote hd =>
    hne d hbare hquote (congrArg some hd)
  have hblank : isBlank c = false := by
    have hspace := hc ' ' rfl (by decide)
    have htab := hc '\t' rfl (by decide)
    simp [isBlank, hspace, htab]
  have hskip := skipSpace_cons (hc '\n' rfl (by decide)) (hc '\r' rfl (by decide)) hblank
    (hc '#' rfl (by decide)) (r ++ (" = ".toList ++ (text ++ '\n' :: rest)))
  refine lines_cons hskip (hpair.map (fun (path, node) => Line.pair path node) ?_) rfl
  exact line_of_ne_bracket (hc '[' rfl (by decide)) _

/-- A header stands on a line of its own, below an empty one. -/
theorem lines_header {name : String} {path : List String} (hlength : (name :: path).length ≤ maxDepth)
    (rest : List Char) : lines ('\n' :: '[' :: (keyPath (name :: path) ++ ']' :: '\n' :: rest)) =
      (lines rest).map (.table (name :: path) :: ·) := by
  have hne : (keyPath (name :: path) ++ ']' :: '\n' :: rest).head? ≠ some '[' := by
    rw [keyPath_cons, List.append_assoc]
    exact head?_keyPart_ne rfl (by decide) name _
  have hheader := takes_header hlength ('\n' :: rest)
  refine lines_cons (c := '[') rfl (hheader.map Line.table ?_) rfl
  rw [line, if_neg hne]

theorem nests_of_regular {depth : Nat} {v : Value} (h : Regular depth v) (hv : isTable v = false) :
    Nests maxDepth v := by
  cases v with
  | table entries => cases hv
  | _ => exact h

section Plain

variable {name : String} {v : Value} {entries : List (String × Value)}

theorem plainNodes_cons_of_skipped (h : (isTable v || isNull v) = true) :
    plainNodes ((name, v) :: entries) = plainNodes entries :=
  List.filterMap_cons_none (if_pos h)

theorem plainNodes_cons_of_plain (h : ¬ (isTable v || isNull v) = true) :
    plainNodes ((name, v) :: entries) = (name, .value v) :: plainNodes entries :=
  List.filterMap_cons_some (if_neg h)

/-- A table without a header has no plain value. -/
theorem plainNodes_of_not_hasHeader (h : hasHeader entries = false) : plainNodes entries = [] := by
  have hplain : ∀ entry ∈ entries, isNull entry.2 = false → isTable entry.2 = true := by
    simpa [hasHeader] using (Bool.or_eq_false_iff.1 h).2
  refine List.filterMap_eq_nil_iff.2 fun entry hentry => ?_
  cases hnull : isNull entry.2 with
  | true => simp [hnull]
  | false => simp [hplain entry hentry hnull]

end Plain

/-- The plain values of a table are read as its pairs. -/
theorem lines_plainLines {depth : Nat} {entries : List (String × Value)} (h : RegularEntries depth entries)
    {text : List Char} (htext : plainLines entries = some text) (rest : List Char) :
    lines (text ++ rest) = (lines rest).map (pairLines (plainPairs entries) ++ ·) := by
  induction entries generalizing text with
  | nil =>
    cases htext
    exact Option.map_id'.symm
  | cons entry entries ih =>
    obtain ⟨name, v⟩ := entry
    rw [plainLines] at htext
    split_ifs at htext with hplain
    · have hpairs : plainPairs ((name, v) :: entries) = plainPairs entries := by
        rw [plainPairs, plainNodes_cons_of_skipped hplain, plainPairs]
      rw [hpairs]
      exact ih h.2 htext
    · have hpairs : plainPairs ((name, v) :: entries) = ([name], .value v) :: plainPairs entries := by
        rw [plainPairs, plainNodes_cons_of_plain hplain, plainPairs, List.map_cons]
      obtain ⟨value, hvalue, htext⟩ := Option.bind_eq_some_iff.1 htext
      obtain ⟨others, hothers, htext⟩ := Option.bind_eq_some_iff.1 htext
      cases htext
      have htable : isTable v = false := by
        cases hv : isTable v with
        | false => rfl
        | true => exact absurd (by rw [hv]; rfl) hplain
      have hread := isRead_inline v (nests_of_regular h.1 htable) hvalue
      have hline := lines_pair name hread (others ++ rest)
      rw [hpairs]
      simp only [List.append_assoc, List.cons_append]
      rw [hline, ih h.2 hothers, Option.map_map]
      rfl

/-! ## The lines of all tables -/

def sectionLines (sections : List Section) : List Line := sections.flatMap Section.lines

theorem sectionLines_append (a b : List Section) : sectionLines (a ++ b) = sectionLines a ++ sectionLines b :=
  List.flatMap_append

theorem map_under_nil (sections : List Section) : sections.map (Section.under []) = sections :=
  List.map_id sections

theorem map_under_append (path other : List String) (sections : List Section) :
    (sections.map (Section.under other)).map (Section.under path) =
      sections.map (Section.under (path ++ other)) := by
  rw [List.map_map]
  refine List.map_congr_left fun sec _ => ?_
  simp [Section.under]

mutual

/-- The tables in the table at a path are read as their sections. -/
theorem lines_tableLines (path : List String) : (entries : List (String × Value)) →
    RegularEntries (maxDepth - path.length) entries → {text : List Char} →
    tableLines path entries = some text → (rest : List Char) →
    lines (text ++ rest) =
      (lines rest).map (sectionLines ((tableSections entries).map (Section.under path)) ++ ·)
  | [], _, _, h, rest => by
    cases h
    exact Option.map_id'.symm
  | (name, v) :: entries, hregular, _, h, rest => by
    obtain ⟨first, hfirst, h⟩ := Option.bind_eq_some_iff.1 h
    obtain ⟨others, hothers, h⟩ := Option.bind_eq_some_iff.1 h
    cases h
    rw [List.append_assoc, lines_tableBlock path name v hregular.1 hfirst,
      lines_tableLines path entries hregular.2 hothers, Option.map_map, tableSections, List.map_append,
      sectionLines_append, map_under_append]
    congr 1
    funext ls
    exact (List.append_assoc _ _ _).symm

theorem lines_tableBlock (path : List String) (name : String) : (v : Value) →
    Regular (maxDepth - path.length) v → {text : List Char} →
    tableBlock (path ++ [name]) v = some text → (rest : List Char) →
    lines (text ++ rest) =
      (lines rest).map (sectionLines ((blockSections v).map (Section.under (path ++ [name]))) ++ ·)
  | .table entries, hregular, _, h, rest => by
    obtain ⟨values, hvalues, h⟩ := Option.bind_eq_some_iff.1 h
    obtain ⟨tables, htables, h⟩ := Option.bind_eq_some_iff.1 h
    cases h
    have hlength : (path ++ [name]).length ≤ maxDepth := by
      have hpos := hregular.1
      rw [List.length_append, List.length_singleton]
      omega
    have hentries : RegularEntries (maxDepth - (path ++ [name]).length) entries := by
      rw [List.length_append, List.length_singleton, ← Nat.sub_sub]
      exact hregular.2.2
    have hbody := lines_plainLines hregular.2.2 hvalues (tables ++ rest)
    rw [lines_tableLines (path ++ [name]) entries hentries htables, Option.map_map] at hbody
    rw [blockSections, List.map_append, sectionLines_append]
    split_ifs with hheader
    · obtain ⟨first, others, hpath⟩ := List.exists_cons_of_ne_nil (List.concat_ne_nil name path)
      rw [hpath] at hlength hbody ⊢
      have hline := lines_header hlength (values ++ (tables ++ rest))
      rw [hbody, Option.map_map] at hline
      simpa [sectionLines, Section.lines, Section.under, Function.comp_def] using hline
    · rw [plainPairs, plainNodes_of_not_hasHeader (eq_false_of_ne_true hheader)] at hbody
      simpa [sectionLines, pairLines, Function.comp_def] using hbody
  | .null, _, _, h, rest | .boolean _, _, _, h, rest | .integer _, _, _, h, rest
  | .unsigned _, _, _, h, rest | .float _, _, _, h, rest | .text _, _, _, h, rest
  | .sequence _, _, _, h, rest => by
    cases h
    exact Option.map_id'.symm

end

end ModelBinding.Toml
