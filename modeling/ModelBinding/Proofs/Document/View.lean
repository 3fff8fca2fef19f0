import ModelBinding.Binding.Concise
import ModelBinding.Error
import ModelBinding.Proofs.Document.Reading

/-!
# Reading a record out of a document

A document shows the values of records, in one notation or another, and leaves out entries that reading
does without. Whatever the notation, a record comes out of its document if each of its fields does: an
entry that is shown is read, and what stands in for one that is left out is what the entry said.
-/
namespace ModelBinding

variable {α β : Type}

/-- A key under which a document leaves out nothing but null. -/
def Value.IsFieldKey (key : String) : Prop := key.toList.head? ≠ some '_' ∧ key ≠ "doc"
deriving Decidable

/-- How documents show values. A map from names that users choose has all its entries. -/
structure View where
  shown : (isMap : Bool) → Value → Value
  /-- What is there for an entry of a record. -/
  entry : String → Value → Option Value
  /-- The numbers that can be written. -/
  Says : Binary64 → Prop
  /-- The number that is read where one is written. -/
  reread : Binary64 → Binary64
  boolean : ∀ isMap b, shown isMap (.boolean b) = .boolean b
  integer : ∀ isMap i, shown isMap (.integer i) = .integer i
  unsigned : ∀ isMap n, shown isMap (.unsigned n) = .unsigned n
  float : ∀ isMap x, Says x → shown isMap (.float x) = .float (reread x)
  reread_infinite : ∀ x negative, reread x = .infinite negative → x = .infinite negative
  text : ∀ isMap s, shown isMap (.text s) = .text s
  sequence : ∀ isMap items, shown isMap (.sequence items) = .sequence (items.map (shown false))
  record : ∀ fields : List (String × Value), (fields.map Prod.fst).Nodup →
    ∃ entries, shown false (.ofEntries fields) = .table entries ∧
      ∀ key, entries.lookup key = (fields.lookup key).bind (entry key)
  names : ∀ entries, KeyOrdered entries → (∀ e ∈ entries, e.2 ≠ .null) →
    shown true (.table entries) = .table (entries.map fun e => (e.1, shown false e.2))
  entry_null : ∀ key, entry key .null = none ∨ entry key .null = some .null
  entry_field : ∀ key v, Value.IsFieldKey key → shown (plainMapKeys.contains key) v ≠ .null →
    entry key v = some (shown (plainMapKeys.contains key) v)
  entry_doc : ∀ s, entry "doc" (.text s) = some (.text s) ∨ (s = "" ∧ entry "doc" (.text s) = none)

/-- A value as it is. -/
def View.full : View where
  shown _ v := v
  entry _ v := some v
  Says _ := True
  reread x := x
  boolean _ _ := rfl
  integer _ _ := rfl
  unsigned _ _ := rfl
  float _ _ _ := rfl
  reread_infinite _ _ h := h
  text _ _ := rfl
  sequence _ items := by rw [List.map_id']
  record fields h := ⟨_, rfl, fun key => by rw [lookup_orderEntries h]; exact (Option.bind_fun_some _).symm⟩
  names entries _ _ := by rw [List.map_id']
  entry_null _ := .inr rfl
  entry_field _ _ _ _ := rfl
  entry_doc _ := .inl rfl

variable {view : View} {isMap : Bool}

/-- The entries are those that a document shows of `fields`, its version aside. -/
def Shows (view : View) (fields entries : List (String × Value)) : Prop :=
  ∀ key, key ≠ versionKey → entries.lookup key = (fields.lookup key).bind (view.entry key)

theorem Shows.insertVersion {fields entries : List (String × Value)} (h : Shows view fields entries)
    (version : Value) : Shows view fields (insertEntry versionKey version entries) := by
  intro key hkey
  rw [lookup_insertEntry, if_neg hkey]
  exact h key hkey

theorem View.exists_shows (view : View) {fields : List (String × Value)} (h : (fields.map Prod.fst).Nodup) :
    ∃ entries, view.shown false (.ofEntries fields) = .table entries ∧ Shows view fields entries := by
  obtain ⟨entries, hentries, hlookup⟩ := view.record fields h
  exact ⟨entries, hentries, fun key _ => hlookup key⟩

theorem toInt_toInt64_of_lt {n : UInt64} (h : n.toNat < 2 ^ 63) : n.toInt64.toInt = n.toNat := by
  have hnat : n.toInt64 = Int64.ofNat n.toNat := by
    rw [← UInt64.toInt64_ofNat', UInt64.ofNat_toNat]
  rw [hnat, Int64.toInt_ofNat_of_lt h]

theorem View.shown_ofUInt64 (view : View) (n : UInt64) :
    view.shown isMap (.ofUInt64 n) = .ofUInt64 n := by
  unfold Value.ofUInt64
  split_ifs
  · exact view.integer isMap _
  · exact view.unsigned isMap _

theorem Value.IsFieldKey.ne_versionKey {key : String} (h : IsFieldKey key) : key ≠ versionKey := by
  rintro rfl
  exact h.1 rfl

namespace Record

/-- The record comes out as `a` of whatever a document shows of `fields`. -/
def Recovers (record : Record α) (view : View) (fields : List (String × Value)) (a : α) : Prop :=
  ∀ entries, Shows view fields entries → record.Reads entries a

variable {fields : List (String × Value)} {key : String} {decode : Decoder α}

theorem Recovers.map {record : Record α} {a : α} (f : α → β)
    (h : record.Recovers view fields a) : (f <$> record).Recovers view fields (f a) :=
  fun entries hshows => reads_map.2 ⟨a, h entries hshows, rfl⟩

theorem Recovers.seq {first : Record (α → β)} {second : Record α} {f : α → β} {a : α}
    (hfirst : first.Recovers view fields f) (hsecond : second.Recovers view fields a) :
    (first <*> second).Recovers view fields (f a) :=
  fun entries hshows => reads_seq.2 ⟨f, hfirst entries hshows, a, hsecond entries hshows, rfl⟩

theorem Recovers.pure (a : α) : (Pure.pure a : Record α).Recovers view fields a :=
  fun _ _ => reads_pure.2 rfl

theorem lookup_of_shows {v : Value} {entries : List (String × Value)} (h : Shows view fields entries)
    (hlookup : fields.lookup key = some v) (hkey : Value.IsFieldKey key)
    (hv : view.shown (plainMapKeys.contains key) v ≠ .null) :
    entries.lookup key = some (view.shown (plainMapKeys.contains key) v) := by
  rw [h key hkey.ne_versionKey, hlookup, Option.bind_some, view.entry_field key v hkey hv]

section Kept

variable {v : Value} {a absent : α} (hlookup : fields.lookup key = some v) (hkey : Value.IsFieldKey key)
  (hnull : decode .null ≠ .ok a) (hdecode : decode (view.shown (plainMapKeys.contains key) v) = .ok a)

include hlookup hkey hnull hdecode

/-- What is read as a value that null is not read as is there. -/
theorem exists_of_shows {entries : List (String × Value)} (h : Shows view fields entries) :
    ∃ w, entries.lookup key = some w ∧ w ≠ .null ∧ decode w = .ok a := by
  have hv : view.shown (plainMapKeys.contains key) v ≠ .null := fun hv => hnull (hv ▸ hdecode)
  exact ⟨_, lookup_of_shows h hlookup hkey hv, hv, hdecode⟩

theorem Recovers.required : (required key decode).Recovers view fields a := by
  intro entries hshows
  obtain ⟨w, hw, -, hread⟩ := exists_of_shows hlookup hkey hnull hdecode hshows
  exact reads_required.2 ⟨w, hw, hread⟩

theorem Recovers.withDefault : (Record.withDefault key decode absent).Recovers view fields a := by
  intro entries hshows
  obtain ⟨w, hw, -, hread⟩ := exists_of_shows hlookup hkey hnull hdecode hshows
  exact reads_withDefault.2 (.inr ⟨w, hw, hread⟩)

theorem Recovers.optional : (Record.optional key decode).Recovers view fields (some a) := by
  intro entries hshows
  obtain ⟨w, hw, hne, hread⟩ := exists_of_shows hlookup hkey hnull hdecode hshows
  exact reads_withDefault.2 (.inr ⟨w, hw, Decoder.optional_eq_ok.2 (.inr ⟨hne, a, hread, rfl⟩)⟩)

end Kept

/-- Null is left out or shown as it is, and what is not there is none. -/
theorem Recovers.optional_null (hlookup : fields.lookup key = some .null)
    (hkey : Value.IsFieldKey key) : (Record.optional key decode).Recovers view fields none := by
  intro entries hshows
  have hentry := hshows key hkey.ne_versionKey
  rw [hlookup, Option.bind_some] at hentry
  apply reads_withDefault.2
  rcases view.entry_null key with hnone | hnull
  · exact .inl ⟨hentry.trans hnone, rfl⟩
  · exact .inr ⟨_, hentry.trans hnull, rfl⟩

theorem Recovers.optional_absent (hlookup : fields.lookup key = none)
    (hkey : Value.IsFieldKey key) : (Record.optional key decode).Recovers view fields none := by
  intro entries hshows
  have hentry := hshows key hkey.ne_versionKey
  rw [hlookup, Option.bind_none] at hentry
  exact reads_withDefault.2 (.inl ⟨hentry, rfl⟩)

/-- A text that may be left out where it is empty. -/
theorem Recovers.doc {doc : String} (hlookup : fields.lookup "doc" = some (.text doc)) :
    (Record.withDefault "doc" .text "").Recovers view fields doc := by
  intro entries hshows
  have hentry := hshows "doc" (by decide)
  rw [hlookup, Option.bind_some] at hentry
  apply reads_withDefault.2
  rcases view.entry_doc doc with hshown | ⟨rfl, hleft⟩
  · exact .inr ⟨_, hentry.trans hshown, rfl⟩
  · exact .inl ⟨hentry.trans hleft, rfl⟩

theorem Recovers.text {s : String} (hlookup : fields.lookup key = some (.text s))
    (hkey : Value.IsFieldKey key) : (Record.required key .text).Recovers view fields s :=
  .required hlookup hkey (fun h => nomatch h) (by rw [view.text]; rfl)

theorem Recovers.textOr {s absent : String} (hlookup : fields.lookup key = some (.text s))
    (hkey : Value.IsFieldKey key) : (Record.withDefault key .text absent).Recovers view fields s :=
  .withDefault hlookup hkey (fun h => nomatch h) (by rw [view.text]; rfl)

theorem Recovers.booleanOr {b absent : Bool} (hlookup : fields.lookup key = some (.boolean b))
    (hkey : Value.IsFieldKey key) : (Record.withDefault key .boolean absent).Recovers view fields b :=
  .withDefault hlookup hkey (fun h => nomatch h) (by rw [view.boolean]; rfl)

theorem Recovers.boolean {b : Bool} (hlookup : fields.lookup key = some (.boolean b))
    (hkey : Value.IsFieldKey key) : (Record.required key .boolean).Recovers view fields b :=
  .required hlookup hkey (fun h => nomatch h) (by rw [view.boolean]; rfl)

theorem Recovers.int64 {i : Int64} (hlookup : fields.lookup key = some (.integer i))
    (hkey : Value.IsFieldKey key) : (Record.required key .int64).Recovers view fields i :=
  .required hlookup hkey (fun h => nomatch h) (by rw [view.integer]; rfl)

theorem Recovers.optionalText {s : Option String} (hlookup : fields.lookup key = some (.ofText? s))
    (hkey : Value.IsFieldKey key) : (Record.optional key .text).Recovers view fields s := by
  cases s with
  | none => exact .optional_null hlookup hkey
  | some s => exact .optional hlookup hkey (fun h => nomatch h) (by rw [Value.ofText?, view.text]; rfl)

end Record

namespace Decoder

variable {decode : Decoder α} {a : α}

section Fields

variable {fields : List (String × Value)}

theorem reads_of_record_shown {record : Record α} (hkeys : (fields.map Prod.fst).Nodup)
    (h : Decoder.record record (view.shown false (.ofEntries fields)) = .ok a) :
    ∃ entries, Shows view fields entries ∧ record.Reads entries a := by
  obtain ⟨shown, hshown, hshows⟩ := view.exists_shows hkeys
  rw [hshown] at h
  obtain ⟨entries, hentries, hread⟩ := record_eq_ok.1 h
  cases hentries
  exact ⟨shown, hshows, hread⟩

theorem record_shown {record : Record α} (hkeys : (fields.map Prod.fst).Nodup)
    (h : record.Recovers view fields a) :
    Decoder.record record (view.shown false (.ofEntries fields)) = .ok a := by
  obtain ⟨shown, hshown, hshows⟩ := view.exists_shows hkeys
  rw [hshown]
  exact record_eq_ok.2 ⟨shown, rfl, h shown hshows⟩

/-- A tag is shown, so the table is read as the variant that it names. -/
theorem tagged_shown_eq_ok {variants : List (String × Decoder α)} {name : String}
    (hkeys : (fields.map Prod.fst).Nodup) (hname : fields.lookup "type" = some (.text name))
    (hvariant : variants.lookup name = some decode) :
    tagged variants (view.shown false (.ofEntries fields)) = .ok a ↔
      decode (view.shown false (.ofEntries fields)) = .ok a := by
  obtain ⟨shown, hshown, hshows⟩ := view.exists_shows hkeys
  have htag : shown.lookup "type" = some (.text name) := by
    have htext : view.shown (plainMapKeys.contains "type") (.text name) = .text name := view.text _ name
    rw [Record.lookup_of_shows hshows hname (by decide) (by rw [htext]; exact fun h => nomatch h), htext]
  rw [hshown]
  refine ⟨fun h => ?_, fun h => tagged_eq_ok.2 ⟨shown, name, decode, rfl, htag, hvariant, h⟩⟩
  obtain ⟨entries, name', variant, hentries, hname', hvariant', hdecode⟩ := tagged_eq_ok.1 h
  cases hentries
  rw [htag] at hname'
  cases hname'
  rw [hvariant] at hvariant'
  cases hvariant'
  exact hdecode

end Fields

theorem sequence_shown_map {items : List β} {write : β → Value} {f : β → α}
    (h : ∀ b ∈ items, decode (view.shown false (write b)) = .ok (f b)) :
    sequence decode (view.shown isMap (.sequence (items.map write))) = .ok (items.map f) := by
  rw [view.sequence, List.map_map]
  refine sequence_eq_ok.2 ⟨_, rfl, ?_⟩
  rw [List.forall₂_map_left_iff, List.forall₂_map_right_iff]
  exact List.forall₂_same.2 h

theorem sequence_shown {as : List α} {write : α → Value}
    (h : ∀ a ∈ as, decode (view.shown false (write a)) = .ok a) :
    sequence decode (view.shown isMap (.sequence (as.map write))) = .ok as := by
  have hmap := @sequence_shown_map α α view isMap decode as write id h
  rwa [List.map_id] at hmap

theorem sequence_texts_shown (texts : List String) :
    sequence .text (view.shown isMap (.ofTexts texts)) = .ok texts :=
  sequence_shown fun s _ => by rw [view.text]; rfl

/-- A map from names keeps all its entries. -/
theorem textMap_shown_map {map : TextMap β} {write : β → Value} {f : β → α} (hwrite : ∀ b, write b ≠ .null)
    (h : ∀ b ∈ map.values, decode (view.shown false (write b)) = .ok (f b)) :
    textMap decode (view.shown true
      (.table (map.entries.map fun entry => (entry.1, write entry.2)))) = .ok (map.map f) := by
  have hentries : ∀ e ∈ map.entries.map fun entry => (entry.1, write entry.2), e.2 ≠ .null := by
    intro e he
    obtain ⟨entry, -, rfl⟩ := List.mem_map.1 he
    exact hwrite entry.2
  rw [view.names _ (keyOrdered_map _ map.ordered) hentries, List.map_map]
  refine textMap_eq_ok.2 ⟨_, rfl, (map.map f).entries, ?_, (map.map f).ofList_entries⟩
  rw [List.forall₂_map_left_iff, TextMap.map, List.forall₂_map_right_iff]
  refine List.forall₂_same.2 fun entry hentry => ⟨h entry.2 ?_, rfl⟩
  exact List.mem_map_of_mem hentry

theorem textMap_shown {map : TextMap α} {write : α → Value} (hwrite : ∀ a, write a ≠ .null)
    (h : ∀ a ∈ map.values, decode (view.shown false (write a)) = .ok a) :
    textMap decode (view.shown true
      (.table (map.entries.map fun entry => (entry.1, write entry.2)))) = .ok map := by
  have hmap := @textMap_shown_map α α view decode map write id hwrite h
  rwa [map.map_id] at hmap

theorem uint64_shown (n : UInt64) : uint64 (view.shown isMap (.ofUInt64 n)) = .ok n := by
  rw [view.shown_ofUInt64]
  unfold Value.ofUInt64
  split_ifs with h
  · have hint : n.toInt64.toInt = n.toNat := toInt_toInt64_of_lt h
    rw [uint64, if_pos (by omega)]
    simp
  · rfl

end Decoder

end ModelBinding
