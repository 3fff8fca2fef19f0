import ModelBinding.Proofs.Toml.Tables

/-!
# Reading back a TOML document

A table is read back from its text without the entries that are null, which TOML cannot say. What keeps a
table from being written at all is a value in it that has no text.
-/
namespace ModelBinding.Toml

/-! ## What is read back -/

mutual

/-- The value as its text says it: no table has an entry that is null. -/
def withoutNull : Value → Value
  | .sequence items => .sequence (itemsWithoutNull items)
  | .table entries => .table (entriesWithoutNull entries)
  | v => v

def itemsWithoutNull : List Value → List Value
  | [] => []
  | v :: rest => withoutNull v :: itemsWithoutNull rest

def entriesWithoutNull : List (String × Value) → List (String × Value)
  | [] => []
  | (key, v) :: rest =>
    if isNull v then entriesWithoutNull rest else (key, withoutNull v) :: entriesWithoutNull rest

end

/-- What is read back for an entry. -/
def kept (v : Value) : Option Value := if isNull v then none else some (withoutNull v)

theorem itemsWithoutNull_eq (items : List Value) : itemsWithoutNull items = items.map withoutNull := by
  induction items with
  | nil => rfl
  | cons v items ih => rw [itemsWithoutNull, ih, List.map_cons]

theorem entriesWithoutNull_eq (entries : List (String × Value)) :
    entriesWithoutNull entries = keepEntries (fun _ => kept) entries := by
  induction entries with
  | nil => rfl
  | cons entry entries ih =>
    rw [entriesWithoutNull, ih, keepEntries, keepEntries, List.filterMap_cons, kept]
    split_ifs
    · rfl
    · rfl

theorem lookup_entriesWithoutNull {key : String} {entries : List (String × Value)}
    (h : (entries.map Prod.fst).Nodup) :
    (entriesWithoutNull entries).lookup key = (entries.lookup key).bind kept := by
  rw [entriesWithoutNull_eq]
  exact lookup_keepEntries key h

/-! ## What a table is filled with -/

/-- The nodes of a table that was filled. -/
def filledNodes (entries : List (String × Value)) : Entries := plainNodes entries ++ tableNodes entries

theorem entryValues_eq (nodes : Entries) :
    entryValues nodes = nodes.map fun entry => (entry.1, entry.2.toValue) := by
  induction nodes with
  | nil => rfl
  | cons entry nodes ih => rw [entryValues, ih, List.map_cons]

theorem entryValues_append (a b : Entries) : entryValues (a ++ b) = entryValues a ++ entryValues b := by
  rw [entryValues_eq, entryValues_eq, entryValues_eq, List.map_append]

theorem filledNodes_cons_table (name : String) {v : Value} {node : Node} (h : blockNode? v = some node)
    (entries : List (String × Value)) :
    (filledNodes ((name, v) :: entries)).Perm ((name, node) :: filledNodes entries) := by
  have htable : (isTable v || isNull v) = true := by
    cases v with
    | table inner => rfl
    | _ => cases h
  rw [filledNodes, plainNodes_cons_of_skipped htable, tableNodes, h]
  exact List.perm_middle

theorem isTable_of_blockNode? {v : Value} (h : blockNode? v = none) : isTable v = false := by
  cases v with
  | table inner => cases h
  | _ => rfl

theorem filledNodes_cons_other {name : String} {v : Value} (h : blockNode? v = none)
    (entries : List (String × Value)) : filledNodes ((name, v) :: entries) =
      (if isNull v then [] else [(name, .value v)]) ++ filledNodes entries := by
  have htable := isTable_of_blockNode? h
  rw [filledNodes, tableNodes, h]
  cases hnull : isNull v with
  | true =>
    rw [plainNodes_cons_of_skipped (by rw [hnull, Bool.or_true])]
    rfl
  | false =>
    rw [plainNodes_cons_of_plain (by rw [htable, hnull]; decide)]
    rfl

mutual

theorem withoutNull_of_nests : (v : Value) → {depth : Nat} → Nests depth v → withoutNull v = v
  | .sequence items, _, h => by rw [withoutNull, itemsWithoutNull_of_nests items h.2]
  | .null, _, _ | .boolean _, _, _ | .integer _, _, _ | .unsigned _, _, _ | .float _, _, _ | .text _, _, _ => rfl

theorem itemsWithoutNull_of_nests : (items : List Value) → {depth : Nat} → NestsItems depth items →
    itemsWithoutNull items = items
  | [], _, _ => rfl
  | v :: items, _, h => by
    rw [itemsWithoutNull, withoutNull_of_nests v h.1, itemsWithoutNull_of_nests items h.2]

end

mutual

theorem toValue_of_blockNode? : (v : Value) → {depth : Nat} → Regular depth v → {node : Node} →
    blockNode? v = some node → node.toValue = withoutNull v
  | .table entries, _, hregular, _, h => by
    cases h
    have hperm := entryValues_filledNodes_perm entries hregular.2.2
    have hordered : KeyOrdered (entriesWithoutNull entries) := by
      rw [entriesWithoutNull_eq]
      exact keyOrdered_keepEntries hregular.2.1
    rw [Node.toValue, Value.ofEntries, withoutNull]
    exact congrArg Value.table (orderEntries_of_perm hperm hordered)

/-- The plain values come before the tables; apart from that nothing but null is lost. -/
theorem entryValues_filledNodes_perm : (entries : List (String × Value)) → {depth : Nat} →
    RegularEntries depth entries → (entryValues (filledNodes entries)).Perm (entriesWithoutNull entries)
  | [], _, _ => .refl _
  | (name, v) :: entries, depth, hregular => by
    have hmore := entryValues_filledNodes_perm entries hregular.2
    rw [entriesWithoutNull]
    cases hnode : blockNode? v with
    | some node =>
      have hfilled := (filledNodes_cons_table name hnode entries).map fun entry =>
        (entry.1, entry.2.toValue)
      have hnull : ¬ isNull v = true := by
        cases v with
        | table inner => exact Bool.false_ne_true
        | _ => cases hnode
      rw [← entryValues_eq, List.map_cons, ← entryValues_eq] at hfilled
      rw [if_neg hnull, ← toValue_of_blockNode? v hregular.1 hnode]
      exact hfilled.trans (hmore.cons _)
    | none =>
      have hvalue := withoutNull_of_nests v (nests_of_regular hregular.1 (isTable_of_blockNode? hnode))
      rw [filledNodes_cons_other hnode, entryValues_append, hvalue]
      split_ifs
      · exact hmore
      · exact hmore.cons _

end

/-- A filled table says what its text says. -/
theorem ofEntries_filledNodes {depth : Nat} {entries : List (String × Value)}
    (h : Regular depth (.table entries)) :
    Value.ofEntries (entryValues (filledNodes entries)) = withoutNull (.table entries) :=
  toValue_of_blockNode? (.table entries) h rfl

theorem topText?_filledNodes {depth : Nat} {entries : List (String × Value)} {key text : String}
    (h : Regular depth (.table entries)) (hkey : entries.lookup key = some (.text text)) :
    topText? key (filledNodes entries) = some text := by
  have hplain : (key, .value (.text text)) ∈ plainNodes entries :=
    List.mem_filterMap.2 ⟨(key, .text text), mem_of_lookup hkey, rfl⟩
  have hkeys := h.2.1.nodup_keys.sublist (keys_plainNodes_sublist entries)
  rw [topText?, filledNodes, List.lookup_append, lookup_eq_some_of_mem hkeys hplain]
  rfl

/-! ## Reading a text -/

/-- A table with a plain value begins with the key of one. -/
theorem eq_keyPart_append_of_plainLines {entries : List (String × Value)} {text : List Char}
    (hplain : plainNodes entries ≠ []) (h : plainLines entries = some text) :
    ∃ name s, text = keyPart name ++ s := by
  induction entries generalizing text with
  | nil => exact absurd rfl hplain
  | cons entry entries ih =>
    obtain ⟨name, v⟩ := entry
    rw [plainLines] at h
    split_ifs at h with hskipped
    · exact ih (by rwa [plainNodes_cons_of_skipped hskipped] at hplain) h
    · obtain ⟨value, -, h⟩ := Option.bind_eq_some_iff.1 h
      obtain ⟨others, -, h⟩ := Option.bind_eq_some_iff.1 h
      cases h
      exact ⟨name, _, by rw [List.append_assoc, List.append_assoc]⟩

/-- A table with a plain value is read back from its text, each table in it with its own values first. -/
theorem parse?_of_write? {entries : List (String × Value)} {text : String}
    (h : Regular (maxDepth + 1) (.table entries)) (hplain : plainNodes entries ≠ [])
    (hwrite : write? (.table entries) = some text) : parse? text = some (filledNodes entries) := by
  obtain ⟨values, hvalues, hwrite⟩ := Option.bind_eq_some_iff.1 hwrite
  obtain ⟨tables, htables, hwrite⟩ := Option.bind_eq_some_iff.1 hwrite
  cases hwrite
  have hmark : dropMark (values ++ tables) = values ++ tables := by
    obtain ⟨name, s, rfl⟩ := eq_keyPart_append_of_plainLines hplain hvalues
    have hhead := head?_keyPart_ne (d := '\ufeff') rfl (by decide) name (s ++ tables)
    rw [← List.append_assoc] at hhead
    unfold dropMark
    split
    · rename_i heq
      rw [heq] at hhead
      exact absurd rfl hhead
    · rfl
  have hlines := lines_plainLines h.2.2 hvalues tables
  have hend : lines [] = some [] := lines_of_skipSpace_nil rfl
  have hsections := lines_tableLines [] entries h.2.2 htables []
  rw [List.append_nil, hend, map_under_nil, Option.map_some, List.append_nil] at hsections
  rw [hsections, Option.map_some] at hlines
  have hpairs := leadingPairs_pairLines (plainPairs entries) (leadingPairs_sectionLines (tableSections entries))
  rw [parse?, String.toList_ofList, hmark, hlines, Option.bind_some, insertSections_of_leadingPairs hpairs,
    insertPairs_plainPairs h.2.1.nodup_keys, Option.bind_some, insertSections_sectionLines,
    fillSections_tableSections entries h.2.2 (fits_plainNodes h.2.1), filledNodes]

/-! ## What cannot be written -/

mutual

/-- The value holds something that has no text. -/
def Unwritable : Value → Prop
  | .table entries => UnwritableEntries entries
  | .null => False
  | v => inline v = none

def UnwritableEntries : List (String × Value) → Prop
  | [] => False
  | (_, v) :: rest => Unwritable v ∨ UnwritableEntries rest

end

theorem unwritableEntries_iff {entries : List (String × Value)} :
    UnwritableEntries entries ↔ ∃ entry ∈ entries, Unwritable entry.2 := by
  induction entries with
  | nil => simp [UnwritableEntries]
  | cons entry entries ih => simp [UnwritableEntries, ih]

/-- Two texts are put together if both are there. -/
theorem bind_bind_eq_none {α β γ : Type} {a : Option α} {b : Option β} {f : α → β → γ} :
    (a.bind fun x => b.bind fun y => some (f x y)) = none ↔ a = none ∨ b = none := by
  cases a with
  | none => simp
  | some x =>
    cases b with
    | none => simp
    | some y => simp

theorem inlineItems_eq_none {items : List Value} :
    inlineItems items = none ↔ ∃ v ∈ items, inline v = none := by
  induction items with
  | nil => simp [inlineItems]
  | cons v items ih =>
    rw [List.exists_mem_cons_iff, ← ih]
    exact bind_bind_eq_none

theorem inline_sequence_eq_none {items : List Value} :
    inline (.sequence items) = none ↔ ∃ v ∈ items, inline v = none := by
  rw [inline, Option.map_eq_none_iff, inlineItems_eq_none]

theorem plainLines_cons_eq_none (name : String) (v : Value) (entries : List (String × Value)) :
    plainLines ((name, v) :: entries) = none ↔
      (isTable v = false ∧ Unwritable v) ∨ plainLines entries = none := by
  rw [plainLines]
  cases v with
  | table inner => simp [isTable]
  | null => simp [isTable, isNull, Unwritable]
  | _ =>
    rw [if_neg (by simp [isTable, isNull])]
    exact bind_bind_eq_none.trans (or_congr_left (and_iff_right rfl).symm)

mutual

theorem tableBlock_eq_none (path : List String) : (v : Value) →
    (tableBlock path v = none ↔ isTable v = true ∧ Unwritable v)
  | .table entries => by
    have hentries := lines_eq_none path entries
    rw [tableBlock, and_iff_right (show isTable (.table entries) = true from rfl), Unwritable, ← hentries]
    exact bind_bind_eq_none
  | .null | .boolean _ | .integer _ | .unsigned _ | .float _ | .text _ | .sequence _ => by
    simp [tableBlock, isTable]

/-- What has no text is missed either among the plain values of a table or in one of its tables. -/
theorem lines_eq_none (path : List String) : (entries : List (String × Value)) →
    (plainLines entries = none ∨ tableLines path entries = none ↔ UnwritableEntries entries)
  | [] => by simp [plainLines, tableLines, UnwritableEntries]
  | (name, v) :: entries => by
    have hblock := tableBlock_eq_none (path ++ [name]) v
    have hmore := lines_eq_none path entries
    have htables : tableLines path ((name, v) :: entries) = none ↔
        tableBlock (path ++ [name]) v = none ∨ tableLines path entries = none := bind_bind_eq_none
    rw [plainLines_cons_eq_none, htables, hblock, UnwritableEntries, ← hmore]
    cases isTable v with
    | true => simp only [Bool.true_eq_false, false_and, false_or, true_and]; tauto
    | false => simp only [Bool.false_eq_true, false_and, false_or, true_and]; tauto

end

/-- A table is written unless it holds something that has no text. -/
theorem write?_eq_none {entries : List (String × Value)} :
    write? (.table entries) = none ↔ ∃ entry ∈ entries, Unwritable entry.2 := by
  rw [← unwritableEntries_iff, ← lines_eq_none []]
  exact bind_bind_eq_none

end ModelBinding.Toml
