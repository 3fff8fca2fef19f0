import ModelBinding.Document.Versioned
import ModelBinding.Proofs.Document.View
import ModelBinding.Proofs.Toml.RoundTrip

/-!
# Records in TOML documents

A TOML document shows everything that a record says, numbers that are not finite included, and leaves out
what is null. A record whose integers have 64 bits and a sign is written with its version, and the version
is found when the document is read.
-/
namespace ModelBinding

theorem Toml.kept_of_ne_null {v : Value} (h : v ≠ .null) : Toml.kept v = some (Toml.withoutNull v) := by
  cases v with
  | null => exact absurd rfl h
  | _ => rfl

/-- How TOML shows values. -/
def View.toml : View where
  shown _ := Toml.withoutNull
  entry _ := Toml.kept
  Says _ := True
  reread x := x
  boolean _ _ := rfl
  integer _ _ := rfl
  unsigned _ _ := rfl
  float _ _ _ := rfl
  reread_infinite _ _ h := h
  text _ _ := rfl
  sequence _ items := congrArg Value.sequence (Toml.itemsWithoutNull_eq items)
  record fields h := by
    refine ⟨Toml.entriesWithoutNull (orderEntries fields), rfl, fun key => ?_⟩
    rw [Toml.lookup_entriesWithoutNull (keyOrdered_orderEntries fields).nodup_keys, lookup_orderEntries h]
  names entries _ h := by
    rw [Toml.withoutNull, Toml.entriesWithoutNull_eq]
    exact congrArg Value.table (keepEntries_eq_map fun entry hentry => Toml.kept_of_ne_null (h entry hentry))
  entry_null _ := .inl rfl
  entry_field _ v _ hv := Toml.kept_of_ne_null fun hnull => hv (congrArg Toml.withoutNull hnull)
  entry_doc _ := .inl rfl

namespace Toml

theorem regularEntries_iff {depth : Nat} {entries : List (String × Value)} :
    RegularEntries depth entries ↔ ∀ entry ∈ entries, Regular depth entry.2 := by
  induction entries with
  | nil => simp [RegularEntries]
  | cons entry entries ih => simp [RegularEntries, ih]

theorem nestsItems_iff {depth : Nat} {items : List Value} :
    NestsItems depth items ↔ ∀ v ∈ items, Nests depth v := by
  induction items with
  | nil => simp [NestsItems]
  | cons v items ih => simp [NestsItems, ih]

theorem regular_ofEntries {depth : Nat} {fields : List (String × Value)}
    (h : ∀ entry ∈ fields, Regular depth entry.2) : Regular (depth + 1) (.ofEntries fields) :=
  ⟨Nat.succ_pos depth, keyOrdered_orderEntries fields,
    regularEntries_iff.2 fun entry hentry => h entry (mem_orderEntries hentry)⟩

section Kinds

variable {depth : Nat}

@[simp] theorem regular_null : Regular depth .null := trivial

@[simp] theorem regular_text (s : String) : Regular depth (.text s) := trivial

@[simp] theorem regular_boolean (b : Bool) : Regular depth (.boolean b) := trivial

@[simp] theorem regular_integer (i : Int64) : Regular depth (.integer i) := trivial

@[simp] theorem regular_ofText? (s : Option String) : Regular depth (.ofText? s) := by
  cases s with
  | _ => trivial

theorem regular_textMap {α : Type} (map : TextMap α) {write : α → Value}
    (h : ∀ a ∈ map.values, Regular depth (write a)) :
    Regular (depth + 1) (.table (map.entries.map fun entry => (entry.1, write entry.2))) := by
  refine ⟨Nat.succ_pos depth, keyOrdered_map _ map.ordered, regularEntries_iff.2 fun entry hentry => ?_⟩
  obtain ⟨written, hwritten, rfl⟩ := List.mem_map.1 hentry
  exact h written.2 (List.mem_map_of_mem hwritten)

theorem regular_sequence_map {α : Type} {items : List α} {write : α → Value}
    (h : ∀ a ∈ items, Nests (maxDepth - 1) (write a)) : Regular depth (.sequence (items.map write)) := by
  refine ⟨Nat.succ_pos _, nestsItems_iff.2 fun v hv => ?_⟩
  obtain ⟨a, ha, rfl⟩ := List.mem_map.1 hv
  exact h a ha

theorem nests_ofUInt64 (n : UInt64) : Nests depth (.ofUInt64 n) := by
  unfold Value.ofUInt64
  split_ifs
  · trivial
  · trivial

@[simp] theorem unwritable_null : Unwritable .null ↔ False := .rfl

@[simp] theorem unwritable_text (s : String) : Unwritable (.text s) ↔ False :=
  iff_of_false (fun h => nomatch h) id

@[simp] theorem unwritable_boolean (b : Bool) : Unwritable (.boolean b) ↔ False :=
  iff_of_false (fun h => nomatch h) id

@[simp] theorem unwritable_integer (i : Int64) : Unwritable (.integer i) ↔ False :=
  iff_of_false (fun h => nomatch h) id

@[simp] theorem unwritable_ofText? (s : Option String) : Unwritable (.ofText? s) ↔ False := by
  cases s with
  | none => exact unwritable_null
  | some s => exact unwritable_text s

@[simp] theorem unwritable_sequence_map {α : Type} (items : List α) (write : α → Value) :
    Unwritable (.sequence (items.map write)) ↔ ∃ a ∈ items, inline (write a) = none := by
  change inline (.sequence (items.map write)) = none ↔ _
  simp [inline_sequence_eq_none]

theorem unwritable_ofEntries {fields : List (String × Value)} (h : (fields.map Prod.fst).Nodup) :
    Unwritable (.ofEntries fields) ↔ ∃ entry ∈ fields, Unwritable entry.2 := by
  change UnwritableEntries (orderEntries fields) ↔ _
  simp only [unwritableEntries_iff, (perm_orderEntries h).mem_iff]

theorem unwritable_textMap {α : Type} (map : TextMap α) (write : α → Value) :
    Unwritable (.table (map.entries.map fun entry => (entry.1, write entry.2))) ↔
      ∃ a ∈ map.values, Unwritable (write a) := by
  change UnwritableEntries _ ↔ _
  simp only [unwritableEntries_iff, TextMap.values, List.mem_map, exists_exists_and_eq_and]

/-- An unsigned integer is written if it fits a signed one. -/
theorem inline_ofUInt64_eq_none {n : UInt64} :
    inline (.ofUInt64 n) = none ↔ Int64.maxValue.toInt < n.toNat := by
  have hmax : Int64.maxValue.toInt = 0x7fffffffffffffff := by decide
  unfold Value.ofUInt64
  rw [hmax]
  split_ifs with h
  · exact iff_of_false (fun h => nomatch h) (by omega)
  · exact iff_of_true rfl (by omega)

end Kinds

section Record

variable {fields : List (String × Value)} {text : String}

/-- The entries that a record is written with. -/
def versioned (fields : List (String × Value)) : List (String × Value) :=
  insertEntry versionKey (.text schemaVersion) (orderEntries fields)

theorem writeVersioned_ofEntries (fields : List (String × Value)) :
    writeVersioned (.ofEntries fields) = match write? (.table (versioned fields)) with
      | some text => .ok text
      | none => .error .tomlRange := rfl

/-- Writing fails only over a number. -/
theorem eq_tomlRange_of_writeVersioned {v : Value} {error : Error} (h : writeVersioned v = .error error) :
    error = .tomlRange := by
  unfold writeVersioned at h
  split at h
  · cases h
  · cases h
    rfl

theorem regular_versioned {depth : Nat} (h : Regular (depth + 1) (.ofEntries fields)) :
    Regular (depth + 1) (.table (versioned fields)) := by
  refine ⟨h.1, keyOrdered_insertEntry _ _ h.2.1, regularEntries_iff.2 fun entry hentry => ?_⟩
  rcases mem_insertEntry hentry with rfl | hentry
  · trivial
  · exact regularEntries_iff.1 h.2.2 entry hentry

/-- A record is refused if it holds something that has no text. -/
theorem writeVersioned_eq_error (hkeys : (fields.map Prod.fst).Nodup)
    (hversion : versionKey ∉ fields.map Prod.fst) :
    writeVersioned (.ofEntries fields) = .error .tomlRange ↔ ∃ entry ∈ fields, Unwritable entry.2 := by
  have hordered : versionKey ∉ (orderEntries fields).map Prod.fst := fun h =>
    hversion (mem_keys_orderEntries.1 h)
  have hwritable : ¬ Unwritable (.text schemaVersion) := fun h => nomatch h
  have hnone : write? (.table (versioned fields)) = none ↔ ∃ entry ∈ fields, Unwritable entry.2 := by
    simp only [write?_eq_none, versioned, (perm_insertEntry hordered).mem_iff, List.exists_mem_cons_iff,
      hwritable, false_or, (perm_orderEntries hkeys).mem_iff]
  rw [writeVersioned_ofEntries, ← hnone]
  cases write? (.table (versioned fields)) with
  | none => exact iff_of_true rfl rfl
  | some text => exact iff_of_false (fun h => nomatch h) (fun h => nomatch h)

/-- A document that was written is read with what it shows of the record. -/
theorem exists_shows_of_writeVersioned (hregular : Regular (maxDepth + 1) (.ofEntries fields))
    (hkeys : (fields.map Prod.fst).Nodup) (h : writeVersioned (.ofEntries fields) = .ok text) :
    ∃ entries, Shows .toml fields entries ∧ ∀ {α : Type} (document : DocumentKind) (decode : Decoder α),
      readVersioned document decode text =
        (decode (.table entries)).mapError fun fault => .config (.fault document fault) := by
  have hwrite : write? (.table (versioned fields)) = some text := by
    rw [writeVersioned_ofEntries] at h
    split at h
    · rename_i hsome
      cases h
      exact hsome
    · cases h
  have hversioned := regular_versioned hregular
  have hversion : (versioned fields).lookup versionKey = some (.text schemaVersion) := by
    rw [versioned, lookup_insertEntry, if_pos rfl]
  have hplain : plainNodes (versioned fields) ≠ [] :=
    List.ne_nil_of_mem (List.mem_filterMap.2 ⟨(versionKey, .text schemaVersion), mem_of_lookup hversion, rfl⟩)
  have hparse : parse text = .ok (filledNodes (versioned fields)) := by
    rw [parse, parse?_of_write? hversioned hplain hwrite]
  refine ⟨entriesWithoutNull (versioned fields), fun key hkey => ?_, fun document decode => ?_⟩
  · rw [lookup_entriesWithoutNull hversioned.2.1.nodup_keys, versioned, lookup_insertEntry, if_neg hkey,
      lookup_orderEntries hkeys]
    rfl
  · have htop := topText?_filledNodes hversioned hversion
    have hchecked : checkVersion document (topText? versionKey (filledNodes (versioned fields))) = .ok () := by
      rw [checkVersion, if_pos htop]
    rw [readVersioned, hparse]
    change (checkVersion document _ >>= fun _ => _) = _
    rw [hchecked]
    change ((decode (.ofEntries (entryValues (filledNodes (versioned fields))))).mapError _ : Except Error _) = _
    rw [ofEntries_filledNodes hversioned]
    rfl

/-- A record that comes out of what its document shows is read back from its text. -/
theorem exists_text {α : Type} {decode : Decoder α} {a : α} (hregular : Regular (maxDepth + 1) (.ofEntries fields))
    (hkeys : (fields.map Prod.fst).Nodup) (hversion : versionKey ∉ fields.map Prod.fst)
    (hwritable : ¬ ∃ entry ∈ fields, Unwritable entry.2)
    (hdecode : ∀ entries, Shows .toml fields entries → decode (.table entries) = .ok a) :
    ∃ text, writeVersioned (.ofEntries fields) = .ok text ∧
      ∀ document, readVersioned document decode text = .ok a := by
  cases hwrite : writeVersioned (.ofEntries fields) with
  | error error =>
    rw [eq_tomlRange_of_writeVersioned hwrite, writeVersioned_eq_error hkeys hversion] at hwrite
    exact absurd hwrite hwritable
  | ok text =>
    obtain ⟨entries, hshows, hread⟩ := exists_shows_of_writeVersioned hregular hkeys hwrite
    refine ⟨text, rfl, fun document => ?_⟩
    rw [hread, hdecode entries hshows]
    rfl

end Record

end Toml

end ModelBinding
