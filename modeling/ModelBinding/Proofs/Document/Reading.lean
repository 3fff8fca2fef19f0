import ModelBinding.Document.Record
import ModelBinding.Proofs.Entries
import ModelBinding.Proofs.Results

/-!
# What records are read from

A record comes out of a table exactly if each of its fields comes out of its own entry, and each
kind of decoder succeeds on one kind of value.
-/
namespace ModelBinding

variable {α β : Type}

namespace Record

/-- The fields come out of the entries as `a`. -/
def Reads (fields : Record α) (entries : List (String × Value)) (a : α) : Prop :=
  fields.read entries = .found a

variable {entries : List (String × Value)}

@[simp] theorem reads_pure {a b : α} : (pure a : Record α).Reads entries b ↔ a = b := by
  rw [Reads]
  constructor
  · intro h
    cases h
    rfl
  · rintro rfl
    rfl

@[simp] theorem reads_seq {first : Record (α → β)} {second : Record α} {b : β} :
    (first <*> second).Reads entries b ↔
      ∃ f, first.Reads entries f ∧ ∃ a, second.Reads entries a ∧ f a = b := by
  change ((first.read entries).both (second.read entries)).map (fun pair => pair.1 pair.2) = .found b ↔
    ∃ f, first.read entries = .found f ∧ ∃ a, second.read entries = .found a ∧ f a = b
  cases first.read entries with
  | found f =>
    cases second.read entries with
    | found a => simp [FieldResult.both, FieldResult.map]
    | bad key fault => simp [FieldResult.both, FieldResult.map]
    | missing name => simp [FieldResult.both, FieldResult.map]
  | bad key fault =>
    cases second.read entries with
    | found a => simp [FieldResult.both, FieldResult.map]
    | bad key' fault' =>
      simp only [FieldResult.both]
      split_ifs <;> simp [FieldResult.map]
    | missing name => simp [FieldResult.both, FieldResult.map]
  | missing name =>
    cases second.read entries with
    | found a => simp [FieldResult.both, FieldResult.map]
    | bad key fault => simp [FieldResult.both, FieldResult.map]
    | missing name' => simp [FieldResult.both, FieldResult.map]

@[simp] theorem reads_map {f : α → β} {fields : Record α} {b : β} :
    (f <$> fields).Reads entries b ↔ ∃ a, fields.Reads entries a ∧ f a = b := by
  change (pure f <*> fields : Record β).Reads entries b ↔ _
  rw [reads_seq]
  simp

@[simp] theorem reads_required {name : String} {decode : Decoder α} {a : α} :
    (required name decode).Reads entries a ↔
      ∃ v, entries.lookup name = some v ∧ decode v = .ok a := by
  cases hname : entries.lookup name with
  | none => simp [Reads, required, hname]
  | some v =>
    cases h : decode v with
    | error fault => simp [Reads, required, hname, h]
    | ok b => simp [Reads, required, hname, h]

@[simp] theorem reads_withDefault {name : String} {decode : Decoder α} {absent a : α} :
    (withDefault name decode absent).Reads entries a ↔
      (entries.lookup name = none ∧ absent = a) ∨
        ∃ v, entries.lookup name = some v ∧ decode v = .ok a := by
  cases hname : entries.lookup name with
  | none => simp [Reads, withDefault, hname]
  | some v =>
    cases h : decode v with
    | error fault => simp [Reads, withDefault, hname, h]
    | ok b => simp [Reads, withDefault, hname, h]

/-- Reading the fields looks at no keys but these. -/
def Within (fields : Record α) (keys : List String) : Prop :=
  ∀ entries others : List (String × Value),
    (∀ key ∈ keys, entries.lookup key = others.lookup key) → fields.read entries = fields.read others

variable {keys : List String}

theorem Within.pure (a : α) : (Pure.pure a : Record α).Within keys := fun _ _ _ => rfl

theorem Within.seq {first : Record (α → β)} {second : Record α} (hfirst : first.Within keys)
    (hsecond : second.Within keys) : (first <*> second).Within keys := by
  intro entries others h
  change ((first.read entries).both (second.read entries)).map _ = _
  rw [hfirst entries others h, hsecond entries others h]
  rfl

theorem Within.map {fields : Record α} (f : α → β) (h : fields.Within keys) : (f <$> fields).Within keys :=
  .seq (.pure f) h

theorem Within.required {name : String} {decode : Decoder α} (h : name ∈ keys) :
    (Record.required name decode).Within keys := by
  intro entries others hkeys
  simp only [Record.required, hkeys name h]

theorem Within.withDefault {name : String} {decode : Decoder α} {absent : α} (h : name ∈ keys) :
    (Record.withDefault name decode absent).Within keys := by
  intro entries others hkeys
  simp only [Record.withDefault, hkeys name h]

end Record

namespace Decoder

variable {v : Value}

/-- What stands under other keys than those of the fields is ignored. -/
theorem record_congr {fields : Record α} {keys : List String} (h : fields.Within keys)
    {entries others : List (String × Value)} (hkeys : ∀ key ∈ keys, entries.lookup key = others.lookup key) :
    record fields (.table entries) = record fields (.table others) := by
  simp only [record, h entries others hkeys]

theorem record_eq_ok {fields : Record α} {a : α} :
    record fields v = .ok a ↔ ∃ entries, v = .table entries ∧ fields.Reads entries a := by
  cases v with
  | table entries =>
    cases h : fields.read entries with
    | found b => simp [record, Record.Reads, h]
    | bad key fault => simp [record, Record.Reads, h]
    | missing name => simp [record, Record.Reads, h]
  | _ => simp [record]

theorem refine_eq_ok {decode : Decoder α} {rule : α → Except String β} {b : β} :
    refine decode rule v = .ok b ↔ ∃ a, decode v = .ok a ∧ rule a = .ok b := by
  unfold refine
  cases decode v with
  | error fault => simp
  | ok a => simp [mapError_eq_ok]

theorem optional_eq_ok {decode : Decoder α} {a : Option α} :
    optional decode v = .ok a ↔
      (v = .null ∧ a = none) ∨ (v ≠ .null ∧ ∃ b, decode v = .ok b ∧ some b = a) := by
  cases v with
  | null => simp [optional, eq_comm]
  | _ => simp [optional, map_eq_ok]

theorem sequence_eq_ok {decode : Decoder α} {as : List α} :
    sequence decode v = .ok as ↔
      ∃ items, v = .sequence items ∧ List.Forall₂ (fun w a => decode w = .ok a) items as := by
  cases v with
  | sequence items => simp [sequence, mapM_eq_ok]
  | _ => simp [sequence]

theorem eq_some_of_reads_optional {name : String} {decode : Decoder α}
    {entries : List (String × Value)} {a : α}
    (h : (Record.optional name decode).Reads entries (some a)) :
    ∃ w, entries.lookup name = some w ∧ decode w = .ok a := by
  rcases Record.reads_withDefault.1 h with ⟨-, h⟩ | ⟨w, hlookup, hdecode⟩
  · cases h
  · rcases optional_eq_ok.1 hdecode with ⟨-, h⟩ | ⟨-, b, hb, h⟩
    · cases h
    · cases h
      exact ⟨w, hlookup, hb⟩

theorem textMap_eq_ok {decode : Decoder α} {map : TextMap α} :
    textMap decode v = .ok map ↔ ∃ entries, v = .table entries ∧ ∃ read : List (String × α),
      List.Forall₂ (fun entry r => decode entry.2 = .ok r.2 ∧ entry.1 = r.1) entries read ∧
        TextMap.ofList read = map := by
  cases v with
  | table entries =>
    simp only [textMap, map_eq_ok, mapM_eq_ok, mapError_eq_ok, Value.table.injEq]
    constructor
    · rintro ⟨read, hread, rfl⟩
      refine ⟨entries, rfl, read, hread.imp fun entry r h => ?_, rfl⟩
      obtain ⟨a, ha, rfl⟩ := h
      exact ⟨ha, rfl⟩
    · rintro ⟨_, rfl, read, hread, rfl⟩
      refine ⟨read, hread.imp fun entry r h => ⟨r.2, h.1, ?_⟩, rfl⟩
      rw [h.2]
  | _ => simp [textMap]

theorem whole_eq_ok {decode : Decoder α} {a : α} : whole decode v = .ok a ↔ decode v = .ok a :=
  mapError_eq_ok

theorem tagged_eq_ok {variants : List (String × Decoder α)} {a : α} :
    tagged variants v = .ok a ↔ ∃ entries name decode, v = .table entries ∧
      entries.lookup "type" = some (.text name) ∧ variants.lookup name = some decode ∧
        decode v = .ok a := by
  cases v with
  | table entries =>
    simp only [tagged, Value.table.injEq]
    cases hname : entries.lookup "type" with
    | none => simp [hname]
    | some w =>
      cases w with
      | text name =>
        simp only [tag]
        cases hvariant : variants.lookup name with
        | none => simp [listed, hname, hvariant]
        | some decode => simp [listed, hname, hvariant, whole_eq_ok]
      | _ => simp [tag, hname]
  | _ => simp [tagged]

end Decoder

end ModelBinding
