import ModelBinding.Document.Versioned
import ModelBinding.Proofs.Context.Members

/-!
# Members of one kind

In a document structs and enums list their members in one form. A definition is made of those that
are all of the kind it declares, and what it was made of can be told from it; of the others the first
is reported, for the first thing that is wrong with it. A type is written so that it is read back.
-/
namespace ModelBinding

/-! ## Flaws of fields -/

namespace Field

variable {mode : FieldMode} {shape : Option (List UInt64)} {type : Option String} {flaw : FieldFlaw}

/-- What is wrong with a shape beside a mode. -/
inductive ShapeFlawed (mode : FieldMode) : Option (List UInt64) → FieldFlaw → Prop
  | missing (h : mode.isArray = true) : ShapeFlawed mode none (.shapeMissing mode)
  | unexpected {extents : List UInt64} (h : mode.isArray = false) :
    ShapeFlawed mode (some extents) (.shapeUnexpected mode)
  | notPositive {extents : List UInt64} (h : mode.isArray = true) (hextents : extents = [] ∨ 0 ∈ extents) :
    ShapeFlawed mode (some extents) (.shapeNotPositive extents)

/-- What is wrong with the name of a type beside a mode. -/
inductive TypeFlawed (mode : FieldMode) : Option String → FieldFlaw → Prop
  | missing (h : mode.namesType = true) : TypeFlawed mode none (.typeMissing mode)
  | unexpected {type : String} (h : mode.namesType = false) : TypeFlawed mode (some type) (.typeUnexpected mode)
  | empty (h : mode.namesType = true) : TypeFlawed mode (some "") .typeEmpty

/-- What is wrong with a field; the type is looked at where the shape is right. -/
inductive Flawed (mode : FieldMode) (shape : Option (List UInt64)) (type : Option String) : FieldFlaw → Prop
  | shape {flaw : FieldFlaw} (h : ShapeFlawed mode shape flaw) : Flawed mode shape type flaw
  | type {flaw : FieldFlaw} (hshape : ∀ other, ¬ ShapeFlawed mode shape other) (h : TypeFlawed mode type flaw) :
    Flawed mode shape type flaw

theorem shapeFlaw?_eq_some : shapeFlaw? mode shape = some flaw ↔ ShapeFlawed mode shape flaw := by
  constructor
  · intro h
    unfold shapeFlaw? at h
    cases shape with
    | none =>
      cases harray : mode.isArray with
      | false => simp [harray] at h
      | true =>
        simp only [harray, if_true, Option.some.injEq] at h
        exact h ▸ .missing harray
    | some extents =>
      cases harray : mode.isArray with
      | false =>
        simp only [harray, Bool.not_false, if_true, Option.some.injEq] at h
        exact h ▸ .unexpected harray
      | true =>
        simp only [harray, Bool.not_true, Bool.false_eq_true, if_false] at h
        split_ifs at h with hextents
        simp only [Bool.or_eq_true, List.isEmpty_iff, List.contains_iff_mem] at hextents
        exact Option.some.inj h ▸ .notPositive harray hextents
  · rintro (harray | harray | ⟨harray, hextents⟩)
    · simp [shapeFlaw?, harray]
    · simp [shapeFlaw?, harray]
    · simp [shapeFlaw?, harray, hextents]

theorem typeFlaw?_eq_some : typeFlaw? mode type = some flaw ↔ TypeFlawed mode type flaw := by
  constructor
  · intro h
    unfold typeFlaw? at h
    cases type with
    | none =>
      cases hnames : mode.namesType with
      | false => simp [hnames] at h
      | true =>
        simp only [hnames, if_true, Option.some.injEq] at h
        exact h ▸ .missing hnames
    | some type =>
      cases hnames : mode.namesType with
      | false =>
        simp only [hnames, Bool.not_false, if_true, Option.some.injEq] at h
        exact h ▸ .unexpected hnames
      | true =>
        simp only [hnames, Bool.not_true, Bool.false_eq_true, if_false] at h
        split_ifs at h with hempty
        rw [String.isEmpty_iff.1 hempty]
        exact Option.some.inj h ▸ .empty hnames
  · rintro (hnames | hnames | hnames)
    · simp [typeFlaw?, hnames]
    · simp [typeFlaw?, hnames]
    · simp [typeFlaw?, hnames]

theorem make_eq_error {name doc : String} {e : Error} :
    make name doc mode shape type = .error e ↔
      ∃ flaw, Flawed mode shape type flaw ∧ e = .invalidField name flaw := by
  unfold make
  split
  · rename_i found hshape
    have hfound := shapeFlaw?_eq_some.1 hshape
    simp only [Except.error.injEq]
    constructor
    · rintro rfl
      exact ⟨found, .shape hfound, rfl⟩
    · rintro ⟨flaw, hflaw, rfl⟩
      cases hflaw with
      | shape h =>
        cases hshape.symm.trans (shapeFlaw?_eq_some.2 h)
        rfl
      | type hnone h => exact absurd hfound (hnone found)
  · rename_i hshape
    have hnone : ∀ other, ¬ ShapeFlawed mode shape other := fun other hother =>
      Option.some_ne_none other ((shapeFlaw?_eq_some.2 hother).symm.trans hshape)
    have htype : ∀ flaw, Flawed mode shape type flaw ↔ typeFlaw? mode type = some flaw := by
      intro flaw
      rw [typeFlaw?_eq_some]
      refine ⟨?_, .type hnone⟩
      rintro (h | ⟨-, h⟩)
      · exact absurd h (hnone flaw)
      · exact h
    simp only [htype]
    split
    · rename_i found hfound
      simp [hfound, eq_comm]
    · rename_i hnone
      simp [hnone]

end Field

/-! ## Entries -/

namespace MemberEntry

variable {owner : String} {entry : MemberEntry} {isEnum : Bool} {e : Error}

/-- The entry says what a member of that kind has, and nothing of the other kind. -/
inductive Fits (entry : MemberEntry) : (isEnum : Bool) → Prop
  | enumerator (hvalue : entry.value.isSome = true) (hmode : entry.mode = none) (hshape : entry.shape = none)
    (htype : entry.typeName = none) : Fits entry true
  | field {mode : FieldMode} (hvalue : entry.value = none) (hmode : entry.mode = some mode)
    (hfits : Field.Fits mode entry.shape entry.typeName) : Fits entry false

/-- What is reported of an entry. That it mixes the kinds goes before what it lacks. -/
inductive Offends (owner : String) (entry : MemberEntry) : (isEnum : Bool) → Error → Prop
  | mixedEnumerator (h : entry.mode.isSome = true ∨ entry.shape.isSome = true ∨ entry.typeName.isSome = true) :
    Offends owner entry true (.invalidType owner (.mixedMember entry.name))
  | valueMissing (hmode : entry.mode = none) (hshape : entry.shape = none) (htype : entry.typeName = none)
    (hvalue : entry.value = none) : Offends owner entry true (.invalidType owner (.valueMissing entry.name))
  | mixedField (h : entry.value.isSome = true) :
    Offends owner entry false (.invalidType owner (.mixedMember entry.name))
  | modeMissing (hvalue : entry.value = none) (hmode : entry.mode = none) :
    Offends owner entry false (.invalidField entry.name .modeMissing)
  | flawed {mode : FieldMode} {flaw : FieldFlaw} (hvalue : entry.value = none) (hmode : entry.mode = some mode)
    (hflaw : Field.Flawed mode entry.shape entry.typeName flaw) :
    Offends owner entry false (.invalidField entry.name flaw)

section Mixed

variable {mode : Option FieldMode} {shape : Option (List UInt64)} {typeName : Option String}

theorem mixed_iff : (mode.isSome || shape.isSome || typeName.isSome) = true ↔
    mode.isSome = true ∨ shape.isSome = true ∨ typeName.isSome = true := by
  rw [Bool.or_eq_true, Bool.or_eq_true, or_assoc]

theorem not_mixed_iff : ¬ (mode.isSome || shape.isSome || typeName.isSome) = true ↔
    mode = none ∧ shape = none ∧ typeName = none := by
  rw [mixed_iff]
  simp

end Mixed

theorem toEnumerator_eq_ok {enumerator : Enumerator} :
    entry.toEnumerator owner = .ok enumerator ↔ entry = ofEnumerator enumerator := by
  obtain ⟨name, doc, mode, shape, typeName, value⟩ := entry
  unfold toEnumerator ofEnumerator
  by_cases hmixed : (mode.isSome || shape.isSome || typeName.isSome) = true
  · rw [if_pos hmixed]
    refine iff_of_false (fun h => nomatch h) fun h => ?_
    simp only [MemberEntry.mk.injEq] at h
    obtain ⟨-, -, rfl, rfl, rfl, -⟩ := h
    cases hmixed
  · rw [if_neg hmixed]
    obtain ⟨rfl, rfl, rfl⟩ := not_mixed_iff.1 hmixed
    cases value with
    | none => simp
    | some value =>
      obtain ⟨name', doc', value'⟩ := enumerator
      simp

theorem toField_eq_ok {field : Field} : entry.toField owner = .ok field ↔ entry = ofField field := by
  obtain ⟨name, doc, mode, shape, typeName, value⟩ := entry
  unfold toField ofField
  cases value with
  | some value => simp
  | none =>
    cases mode with
    | none => simp
    | some mode =>
      simp only [Option.isSome_none, Bool.false_eq_true, if_false, Field.make_eq_ok]
      obtain ⟨name', doc', mode', shape', typeName', fits⟩ := field
      simp only [Field.mk.injEq, MemberEntry.mk.injEq, Option.some.injEq, and_true]
      constructor
      · rintro ⟨_, h⟩
        exact h
      · rintro ⟨rfl, rfl, rfl, rfl, rfl⟩
        exact ⟨fits, rfl, rfl, rfl, rfl, rfl⟩

theorem toEnumerator_eq_error : entry.toEnumerator owner = .error e ↔ entry.Offends owner true e := by
  obtain ⟨name, doc, mode, shape, typeName, value⟩ := entry
  unfold toEnumerator
  by_cases hmixed : (mode.isSome || shape.isSome || typeName.isSome) = true
  · rw [if_pos hmixed]
    constructor
    · rintro ⟨⟩
      exact .mixedEnumerator (mixed_iff.1 hmixed)
    · rintro (_ | ⟨rfl, rfl, rfl, _⟩)
      · rfl
      · cases hmixed
  · rw [if_neg hmixed]
    obtain ⟨rfl, rfl, rfl⟩ := not_mixed_iff.1 hmixed
    constructor
    · intro h
      cases value with
      | some value => cases h
      | none =>
        cases h
        exact .valueMissing rfl rfl rfl rfl
    · rintro (h | ⟨-, -, -, rfl⟩)
      · simp at h
      · rfl

theorem toField_eq_error : entry.toField owner = .error e ↔ entry.Offends owner false e := by
  obtain ⟨name, doc, mode, shape, typeName, value⟩ := entry
  unfold toField
  cases value with
  | some value =>
    constructor
    · rintro ⟨⟩
      exact .mixedField rfl
    · rintro (_ | _ | _ | ⟨hvalue, -⟩ | ⟨hvalue, -, -⟩)
      · rfl
      · cases hvalue
      · cases hvalue
  | none =>
    cases mode with
    | none =>
      constructor
      · rintro ⟨⟩
        exact .modeMissing rfl rfl
      · rintro (_ | _ | hvalue | _ | ⟨-, hmode, -⟩)
        · cases hvalue
        · rfl
        · cases hmode
    | some mode =>
      refine Field.make_eq_error.trans ?_
      constructor
      · rintro ⟨flaw, hflaw, rfl⟩
        exact .flawed rfl rfl hflaw
      · rintro (_ | _ | hvalue | ⟨-, hmode⟩ | ⟨-, hmode, hflaw⟩)
        · cases hvalue
        · cases hmode
        · cases hmode
          exact ⟨_, hflaw, rfl⟩

theorem fits_enumerator : entry.Fits true ↔ ∃ enumerator, entry = ofEnumerator enumerator := by
  constructor
  · rintro ⟨hvalue, hmode, hshape, htype⟩
    obtain ⟨value, hvalue⟩ := Option.isSome_iff_exists.1 hvalue
    refine ⟨⟨entry.name, entry.doc, value⟩, ?_⟩
    obtain ⟨name, doc, mode, shape, typeName, value'⟩ := entry
    cases hmode
    cases hshape
    cases htype
    cases hvalue
    rfl
  · rintro ⟨enumerator, rfl⟩
    exact .enumerator rfl rfl rfl rfl

theorem fits_field : entry.Fits false ↔ ∃ field, entry = ofField field := by
  constructor
  · rintro (_ | ⟨hvalue, hmode, hfits⟩)
    refine ⟨⟨entry.name, entry.doc, _, entry.shape, entry.typeName, hfits⟩, ?_⟩
    obtain ⟨name, doc, mode, shape, typeName, value⟩ := entry
    cases hvalue
    cases hmode
    rfl
  · rintro ⟨field, rfl⟩
    exact .field rfl rfl field.fits

end MemberEntry

/-! ## Definitions -/

namespace TypeDefinition

variable {name doc : String} {location : Location} {isEnum : Bool} {entries : List MemberEntry}

/-- What a definition was made of can be told from it. -/
theorem ofEntries_eq_ok {type : TypeDefinition} :
    ofEntries name doc location isEnum entries = .ok type ↔ type.name = name ∧ type.doc = doc ∧
      type.location = location ∧ type.isEnum = isEnum ∧ type.members.entries = entries := by
  constructor
  · intro h
    unfold ofEntries at h
    cases isEnum with
    | true =>
      obtain ⟨list, hlist, rfl⟩ := map_eq_ok.1 h
      simp only [mapM_eq_ok, MemberEntry.toEnumerator_eq_ok] at hlist
      rw [← List.forall₂_map_right_iff, List.forall₂_eq_eq_eq] at hlist
      exact ⟨rfl, rfl, rfl, rfl, hlist.symm⟩
    | false =>
      obtain ⟨list, hlist, rfl⟩ := map_eq_ok.1 h
      simp only [mapM_eq_ok, MemberEntry.toField_eq_ok] at hlist
      rw [← List.forall₂_map_right_iff, List.forall₂_eq_eq_eq] at hlist
      exact ⟨rfl, rfl, rfl, rfl, hlist.symm⟩
  · rintro ⟨rfl, rfl, rfl, rfl, rfl⟩
    exact ofEntries_entries type

theorem exists_ofEntries_eq_ok : (∃ type, ofEntries name doc location isEnum entries = .ok type) ↔
    ∀ entry ∈ entries, entry.Fits isEnum := by
  cases isEnum with
  | true =>
    simp only [MemberEntry.fits_enumerator, ← @MemberEntry.toEnumerator_eq_ok name,
      ← exists_mapM_ok_iff]
    exact exists_map_ok_iff
  | false =>
    simp only [MemberEntry.fits_field, ← @MemberEntry.toField_eq_ok name, ← exists_mapM_ok_iff]
    exact exists_map_ok_iff

/-- The first entry that does not fit is reported. -/
theorem ofEntries_eq_error {e : Error} :
    ofEntries name doc location isEnum entries = .error e ↔ ∃ before entry after,
      entries = before ++ entry :: after ∧ (∀ fitting ∈ before, fitting.Fits isEnum) ∧
        entry.Offends name isEnum e := by
  cases isEnum with
  | true =>
    simp only [MemberEntry.fits_enumerator, ← @MemberEntry.toEnumerator_eq_ok name,
      ← MemberEntry.toEnumerator_eq_error]
    exact map_eq_error.trans mapM_eq_error
  | false =>
    simp only [MemberEntry.fits_field, ← @MemberEntry.toField_eq_ok name,
      ← MemberEntry.toField_eq_error]
    exact map_eq_error.trans mapM_eq_error

/-! ## Documents -/

/-- The table has the form of a type, and these are its fields. -/
structure HasForm (table : List (String × Value)) (name doc : String) (location : Location) (isEnum : Bool)
    (entries : List MemberEntry) : Prop where
  name : (Record.required "name" .text).Reads table name
  doc : (Record.withDefault "doc" .text "").Reads table doc
  location : (Record.required "location" Location.decode).Reads table location
  isEnum : (Record.withDefault "is_enum" .boolean false).Reads table isEnum
  entries : (Record.required "fields" (.sequence MemberEntry.decode)).Reads table entries

/-- What a type is made of in a document. -/
def record : Record (Except Error TypeDefinition) :=
  ofEntries <$> .required "name" .text <*> .withDefault "doc" .text "" <*>
    .required "location" Location.decode <*> .withDefault "is_enum" .boolean false <*>
    .required "fields" (.sequence MemberEntry.decode)

theorem decode_eq_refine : decode = (Decoder.record record).refine (·.mapError Error.message) := rfl

/-- What has the form of a type is refused for its members only. -/
theorem HasForm.decode_eq {table : List (String × Value)} (h : HasForm table name doc location isEnum entries) :
    decode (.table table) =
      (ofEntries name doc location isEnum entries).mapError fun e => .here (.refused e.message) := by
  have hread : Decoder.record record (.table table) = .ok (ofEntries name doc location isEnum entries) := by
    refine Decoder.record_eq_ok.2 ⟨table, rfl, ?_⟩
    simp only [record, Record.reads_seq, Record.reads_map]
    exact ⟨_, ⟨_, ⟨_, ⟨_, ⟨name, h.name, rfl⟩, doc, h.doc, rfl⟩, location, h.location, rfl⟩,
      isEnum, h.isEnum, rfl⟩, entries, h.entries, rfl⟩
  rw [decode_eq_refine, Decoder.refine, hread]
  cases ofEntries name doc location isEnum entries <;> rfl

/-- Other keys than those of its five fields are not looked at. -/
theorem decode_congr {table other : List (String × Value)}
    (h : ∀ key ∈ ["name", "doc", "location", "is_enum", "fields"], table.lookup key = other.lookup key) :
    decode (.table table) = decode (.table other) := by
  have hwithin : record.Within ["name", "doc", "location", "is_enum", "fields"] := by
    refine .seq (.seq (.seq (.seq (.map _ ?name) ?doc) ?location) ?isEnum) ?entries
    case name => exact .required (by simp)
    case doc => exact .withDefault (by simp)
    case location => exact .required (by simp)
    case isEnum => exact .withDefault (by simp)
    case entries => exact .required (by simp)
  rw [decode_eq_refine, Decoder.refine, Decoder.refine, Decoder.record_congr hwithin h]

end TypeDefinition

namespace PlacedType

variable {type : PlacedType}

/-- A type is read back whether or not the entries that reading derives again are there. -/
theorem decode_eq_ok {table : List (String × Value)}
    (h : ∀ key : String, key.toList.head? ≠ some '_' → table.lookup key = type.toValue.field? key) :
    TypeDefinition.decode (.table table) = .ok type.definition := by
  rw [← @decode_shown .full type]
  refine TypeDefinition.decode_congr fun key hkey => h key ?_
  fin_cases hkey <;> decide

/-- A type is read back from its text. -/
theorem readText_spreadText (type : PlacedType) (mode : DumpMode) :
    Json.readText TypeDefinition.decode (Json.spreadText (type.toValue.dumped mode false)) =
      .ok type.definition := by
  have hdumps : type.toValue.Dumps 127 := type.dumps
  have hparse : Json.parse (Json.spreadText (type.toValue.dumped mode false)) =
      .ok ((type.toValue.dumped mode false).mapFloats (Json.reread .bestEffort)) := by
    rw [Json.parse, Json.parse?_spreadText (hdumps mode false)]
  refine bind_eq_ok.2 ⟨_, hparse, mapError_eq_ok.2 ?_⟩
  exact @decode_shown (.dump mode .bestEffort) type

end PlacedType

/--
A definition is made of entries that are all of the kind it declares, and says what they say; otherwise the
first that is not is reported. A type is read back, with the entries that are derived or without them.
-/
theorem TypeDefinition.members_homogeneous :
    (∀ (name doc : String) (location : Location) (isEnum : Bool) (entries : List MemberEntry),
      ((∃ type, ofEntries name doc location isEnum entries = .ok type) ↔
        ∀ entry ∈ entries, entry.Fits isEnum) ∧
      (∀ type, ofEntries name doc location isEnum entries = .ok type ↔ type.name = name ∧ type.doc = doc ∧
        type.location = location ∧ type.isEnum = isEnum ∧ type.members.entries = entries) ∧
      (∀ e, ofEntries name doc location isEnum entries = .error e ↔ ∃ before entry after,
        entries = before ++ entry :: after ∧ (∀ fitting ∈ before, fitting.Fits isEnum) ∧
          entry.Offends name isEnum e) ∧
      ∀ table, HasForm table name doc location isEnum entries → decode (.table table) =
        (ofEntries name doc location isEnum entries).mapError fun e => .here (.refused e.message)) ∧
    ∀ type : PlacedType,
      (∀ table : List (String × Value),
        (∀ key : String, key.toList.head? ≠ some '_' → table.lookup key = type.toValue.field? key) →
          decode (.table table) = .ok type.definition) ∧
      ∀ mode, Json.readText decode (Json.spreadText (type.toValue.dumped mode false)) = .ok type.definition :=
  ⟨fun _ _ _ _ _ => ⟨exists_ofEntries_eq_ok, fun _ => ofEntries_eq_ok, fun _ => ofEntries_eq_error,
      fun _ h => h.decode_eq⟩,
    fun type => ⟨fun _ h => PlacedType.decode_eq_ok h, type.readText_spreadText⟩⟩

namespace TypeDefinition

/-- A struct with one array. -/
def vector : TypeDefinition := ⟨"Vector", "", .root, .fields [⟨"x", "", .plainArray, some [5], none, by decide⟩]⟩

/-- The entries of a document that says no more of the struct than has to be said. -/
def vectorTable : List (String × Value) :=
  [("name", .text "Vector"), ("doc", .text ""), ("location", .text "root"), ("is_enum", .boolean false),
    ("fields", vector.members.toValue)]

theorem hasForm_vectorTable : HasForm vectorTable "Vector" "" .root false vector.members.entries where
  name := rfl
  doc := rfl
  location := rfl
  isEnum := rfl
  entries := Record.reads_required.2 ⟨_, rfl, @Members.decode_shown .full false vector.members⟩

theorem lookup_vectorTable (key : String) (hkey : key.toList.head? ≠ some '_') :
    vectorTable.lookup key = (PlacedType.mk 0 vector).toValue.field? key := by
  have hderived : ∀ derived : String, derived.toList.head? = some '_' → key ≠ derived :=
    fun derived h heq => hkey (heq ▸ h)
  change _ = (orderEntries _).lookup key
  rw [lookup_orderEntries (by simp)]
  simp only [lookup_cons_ite, vectorTable]
  rw [if_neg (hderived "_id" rfl), if_neg (hderived "_alias_name" rfl), if_neg (hderived "_binding_name" rfl),
    if_neg (hderived "_binding_identifier" rfl)]
  rfl

theorem members_homogeneous_vector :
    decode (.table vectorTable) = .ok vector ∧
      decode (.table vectorTable) = (ofEntries "Vector" "" .root false vector.members.entries).mapError
        (fun e => .here (.refused e.message)) ∧
      Json.readText decode (Json.spreadText ((PlacedType.mk 0 vector).toValue.dumped .concise false)) = .ok vector :=
  ⟨(members_homogeneous.2 ⟨0, vector⟩).1 vectorTable lookup_vectorTable,
    (members_homogeneous.1 _ _ _ _ _).2.2.2 vectorTable hasForm_vectorTable,
    (members_homogeneous.2 ⟨0, vector⟩).2 .concise⟩

end TypeDefinition

end ModelBinding
