import ModelBinding.Proofs.Context.Fields

/-!
# Metadata in a context

What building makes of the structs and members of metadata. Nothing is lost and nothing moves: there is
one type for each struct and one field or constant for each member, and a member is refused exactly if
it says too little or something that there is not.
-/
namespace ModelBinding

namespace FieldMode

/-- The kind of member that a mode lays out, be it alone or an array. -/
def kind : FieldMode → String
  | .model => "model"
  | .plain | .plainArray => "plain"
  | .struct | .structArray => "struct"
  | .enum | .enumArray => "enum"
  | .pointer | .pointerArray => "pointer"

/-- The kinds that a member can be of. -/
def kinds : List String := ["model", "plain", "struct", "enum", "pointer"]

variable {mode : FieldMode} {kind : String} {isArray : Bool}

/-- Kind and array flag determine the mode. -/
theorem classify_eq_ok :
    classify kind isArray = .ok mode ↔ mode.kind = kind ∧ mode.isArray = isArray := by
  constructor
  · intro h
    unfold classify at h
    split at h
    all_goals cases h
    all_goals exact ⟨rfl, rfl⟩
  · rintro ⟨rfl, rfl⟩
    cases mode with
    | _ => rfl

/-- There is a mode for each kind, and but for the model itself one for its arrays. -/
theorem exists_mode_iff : (∃ mode : FieldMode, mode.kind = kind ∧ mode.isArray = isArray) ↔
    kind ∈ kinds ∧ ¬ (kind = "model" ∧ isArray = true) := by
  constructor
  · rintro ⟨mode, rfl, rfl⟩
    cases mode with
    | _ => decide
  · rintro ⟨hkind, hmodel⟩
    simp only [kinds, List.mem_cons, List.not_mem_nil, or_false] at hkind
    cases isArray with
    | false =>
      rcases hkind with rfl | rfl | rfl | rfl | rfl
      exacts [⟨.model, rfl, rfl⟩, ⟨.plain, rfl, rfl⟩, ⟨.struct, rfl, rfl⟩, ⟨.enum, rfl, rfl⟩,
        ⟨.pointer, rfl, rfl⟩]
    | true =>
      rcases hkind with rfl | rfl | rfl | rfl | rfl
      exacts [absurd ⟨rfl, rfl⟩ hmodel, ⟨.plainArray, rfl, rfl⟩, ⟨.structArray, rfl, rfl⟩,
        ⟨.enumArray, rfl, rfl⟩, ⟨.pointerArray, rfl, rfl⟩]

theorem isDeclared_iff :
    mode.isStruct = true ∨ mode.isEnum = true ↔ mode.kind = "struct" ∨ mode.kind = "enum" := by
  cases mode with
  | _ => decide

theorem isPointer_iff : mode.isPointer = true ↔ mode.kind = "pointer" := by
  cases mode with
  | _ => decide

end FieldMode

/-! ## Members -/

namespace MetadataMember

variable {member : MetadataMember} {field : Field}

/-- The shape of the member's field: only an array has one, and a single number is one axis. -/
inductive HasShape (member : MetadataMember) : Option (List UInt64) → Prop where
  | single (harray : member.isArray = false) : HasShape member none
  | axis {n : UInt64} (harray : member.isArray = true) (h : member.shape = some (.axis n)) :
    HasShape member (some [n])
  | axes {list : List UInt64} (harray : member.isArray = true)
    (h : member.shape = some (.axes list)) : HasShape member (some list)

/-- The field of a member of a struct. -/
structure Describes (member : MetadataMember) (field : Field) : Prop where
  name : field.name = member.name
  doc : field.doc = ""
  kind : member.kind = some field.mode.kind
  isArray : field.mode.isArray = member.isArray
  shape : member.HasShape field.rawShape
  type_declared : field.mode.isStruct = true ∨ field.mode.isEnum = true →
    field.typeName = member.typeName
  type_pointer : field.mode.isPointer = true → field.typeName = member.underlying
  type_none : field.mode.namesType = false → field.typeName = none

/-- What keeps a member of a struct from having a field. -/
inductive Flawed (member : MetadataMember) : Prop where
  | kindMissing (h : member.kind = none)
  | unknownKind {kind : String} (h : member.kind = some kind) (hunknown : kind ∉ FieldMode.kinds)
  | modelArray (h : member.kind = some "model") (harray : member.isArray = true)
  | shapeMissing (harray : member.isArray = true) (h : member.shape = none)
  | shapeEmpty (harray : member.isArray = true) (h : member.shape = some (.axes []))
  | axisZero (harray : member.isArray = true) (h : member.shape = some (.axis 0))
  | axesZero {list : List UInt64} (harray : member.isArray = true)
    (h : member.shape = some (.axes list)) (hzero : 0 ∈ list)
  | typeMissing (h : member.kind = some "struct" ∨ member.kind = some "enum")
    (htype : member.typeName = none ∨ member.typeName = some "")
  | targetMissing (h : member.kind = some "pointer")
    (htarget : member.underlying = none ∨ member.underlying = some "")

theorem hasShape_toList {shape : MetadataShape} (harray : member.isArray = true)
    (h : member.shape = some shape) : member.HasShape (some shape.toList) := by
  cases shape with
  | axis n => exact .axis harray h
  | axes list => exact .axes harray h

theorem HasShape.eq_none {extents : Option (List UInt64)} (h : member.HasShape extents)
    (harray : member.isArray = false) : extents = none := by
  cases h with
  | single _ => rfl
  | axis harray' _ | axes harray' _ => exact absurd (harray.symm.trans harray') (by decide)

theorem HasShape.exists_toList {extents : Option (List UInt64)} (h : member.HasShape extents)
    (harray : member.isArray = true) :
    ∃ shape, member.shape = some shape ∧ extents = some shape.toList := by
  cases h with
  | single harray' => exact absurd (harray.symm.trans harray') (by decide)
  | axis _ h => exact ⟨_, h, rfl⟩
  | axes _ h => exact ⟨_, h, rfl⟩

/-- Structs and enums are referred to by their own name, and pointers by that of their target. -/
theorem reference_eq_iff {mode : FieldMode} {type : Option String} :
    member.reference mode.kind = type ↔
      (mode.isStruct = true ∨ mode.isEnum = true → type = member.typeName) ∧
      (mode.isPointer = true → type = member.underlying) ∧
      (mode.namesType = false → type = none) := by
  cases mode with
  | _ => simp [reference, FieldMode.kind, FieldMode.isStruct, FieldMode.isEnum, FieldMode.isPointer,
      FieldMode.namesType, eq_comm]

theorem describes_of_toField (h : member.toField = .ok field) : member.Describes field := by
  unfold toField at h
  split at h
  · cases h
  rename_i kind hkind
  obtain ⟨mode, hmode, h⟩ := bind_eq_ok.1 h
  obtain ⟨rfl, hisArray⟩ := FieldMode.classify_eq_ok.1 hmode
  obtain ⟨hdeclared, hpointer, hnone⟩ := reference_eq_iff.1 (Eq.refl (member.reference mode.kind))
  split_ifs at h with harray
  · split at h
    · cases h
    rename_i shape hshape
    obtain ⟨_, rfl⟩ := Field.make_eq_ok.1 h
    exact ⟨rfl, rfl, hkind, hisArray, hasShape_toList (hisArray ▸ harray) hshape, hdeclared,
      hpointer, hnone⟩
  · obtain ⟨_, rfl⟩ := Field.make_eq_ok.1 h
    exact ⟨rfl, rfl, hkind, hisArray, .single (hisArray ▸ eq_false_of_ne_true harray), hdeclared,
      hpointer, hnone⟩

theorem Describes.toField (h : member.Describes field) : member.toField = .ok field := by
  obtain ⟨name, doc, mode, extents, type, fits⟩ := field
  obtain ⟨rfl, rfl, hkind, hisArray, hshape, hdeclared, hpointer, hnone⟩ := h
  obtain rfl : member.reference mode.kind = type :=
    reference_eq_iff.2 ⟨hdeclared, hpointer, hnone⟩
  unfold MetadataMember.toField
  rw [hkind]
  refine bind_eq_ok.2 ⟨mode, FieldMode.classify_eq_ok.2 ⟨rfl, hisArray⟩, ?_⟩
  cases harray : mode.isArray with
  | false =>
    cases hshape.eq_none (hisArray ▸ harray)
    exact Field.make_eq_ok.2 ⟨fits, rfl⟩
  | true =>
    obtain ⟨shape, hgiven, rfl⟩ := hshape.exists_toList (hisArray ▸ harray)
    rw [if_pos rfl, hgiven]
    exact Field.make_eq_ok.2 ⟨fits, rfl⟩

theorem toField_eq_ok : member.toField = .ok field ↔ member.Describes field :=
  ⟨describes_of_toField, Describes.toField⟩

/-! ## Refused members -/

theorem Describes.not_flawed (h : member.Describes field) : ¬ member.Flawed := by
  have hmode := FieldMode.exists_mode_iff.1 ⟨field.mode, rfl, h.isArray⟩
  have hkind : ∀ kind, member.kind = some kind → field.mode.kind = kind :=
    fun kind hkind => Option.some.inj (h.kind.symm.trans hkind)
  have hextents : ∀ shape, member.isArray = true → member.shape = some shape →
      shape.toList ≠ [] ∧ 0 ∉ shape.toList := by
    intro shape harray hshape
    obtain ⟨_, hgiven, hraw⟩ := h.shape.exists_toList harray
    cases hshape.symm.trans hgiven
    exact field.fits.shape_positive _ hraw
  have htype : field.mode.namesType = true → field.typeName ≠ none ∧ field.typeName ≠ some "" := by
    intro hnames
    rw [← Option.isSome_iff_ne_none, field.fits.type_iff]
    exact ⟨hnames, fun hempty => field.fits.type_nonempty "" hempty rfl⟩
  intro hflaw
  cases hflaw with
  | kindMissing hnone => cases hnone.symm.trans h.kind
  | unknownKind hsome hunknown => exact hunknown (hkind _ hsome ▸ hmode.1)
  | modelArray hsome harray => exact hmode.2 ⟨hkind _ hsome, harray⟩
  | shapeMissing harray hnone =>
    obtain ⟨shape, hgiven, -⟩ := h.shape.exists_toList harray
    cases hnone.symm.trans hgiven
  | shapeEmpty harray hsome => exact (hextents _ harray hsome).1 rfl
  | axisZero harray hsome => exact (hextents _ harray hsome).2 List.mem_cons_self
  | axesZero harray hsome hzero => exact (hextents _ harray hsome).2 hzero
  | typeMissing hsome hmissing =>
    have hdeclared := FieldMode.isDeclared_iff.2 (hsome.imp (hkind _) (hkind _))
    have hnames := FieldMode.namesType_iff.2 (or_assoc.1 (.inl hdeclared))
    rw [← h.type_declared hdeclared] at hmissing
    exact hmissing.elim (htype hnames).1 (htype hnames).2
  | targetMissing hsome hmissing =>
    have hpointer := FieldMode.isPointer_iff.2 (hkind _ hsome)
    have hnames := FieldMode.namesType_iff.2 (.inr (.inr hpointer))
    rw [← h.type_pointer hpointer] at hmissing
    exact hmissing.elim (htype hnames).1 (htype hnames).2

/-! What a member without a flaw says is enough for a mode, a shape and a type that go together. -/

theorem exists_mode_of_not_flawed (h : ¬ member.Flawed) :
    ∃ mode : FieldMode, member.kind = some mode.kind ∧ mode.isArray = member.isArray := by
  cases hkind : member.kind with
  | none => exact absurd (.kindMissing hkind) h
  | some kind =>
    obtain ⟨mode, rfl, hisArray⟩ := FieldMode.exists_mode_iff.2
      ⟨not_not.1 fun hunknown => h (.unknownKind hkind hunknown),
        fun ⟨hmodel, harray⟩ => h (.modelArray (hmodel ▸ hkind) harray)⟩
    exact ⟨mode, rfl, hisArray⟩

theorem exists_shape_of_not_flawed (h : ¬ member.Flawed) :
    ∃ extents, member.HasShape extents ∧ extents.isSome = member.isArray ∧
      ∀ list ∈ extents, list ≠ [] ∧ 0 ∉ list := by
  cases harray : member.isArray with
  | false => exact ⟨none, .single harray, rfl, fun list hlist => nomatch hlist⟩
  | true =>
    cases hshape : member.shape with
    | none => exact absurd (.shapeMissing harray hshape) h
    | some shape =>
      refine ⟨_, hasShape_toList harray hshape, rfl, ?_⟩
      rintro _ ⟨⟩
      cases shape with
      | axis n =>
        refine ⟨List.cons_ne_nil n [], fun hzero => ?_⟩
        cases List.mem_singleton.1 hzero
        exact h (.axisZero harray hshape)
      | axes list =>
        refine ⟨?_, fun hzero => h (.axesZero harray hshape hzero)⟩
        rintro rfl
        exact h (.shapeEmpty harray hshape)

theorem reference_of_not_flawed {mode : FieldMode} (h : ¬ member.Flawed)
    (hkind : member.kind = some mode.kind) :
    (member.reference mode.kind).isSome = mode.namesType ∧
      ∀ type ∈ member.reference mode.kind, type ≠ "" := by
  obtain ⟨hdeclared, hpointer, hnone⟩ := reference_eq_iff.1 (Eq.refl (member.reference mode.kind))
  cases hnames : mode.namesType with
  | false =>
    rw [hnone hnames]
    exact ⟨rfl, fun type htype => nomatch htype⟩
  | true =>
    have hpresent : member.reference mode.kind ≠ none ∧ member.reference mode.kind ≠ some "" := by
      rcases or_assoc.2 (FieldMode.namesType_iff.1 hnames) with hmode | hmode
      · rw [hdeclared hmode]
        have hsome := (FieldMode.isDeclared_iff.1 hmode).imp (· ▸ hkind) (· ▸ hkind)
        exact not_or.1 fun hmissing => h (.typeMissing hsome hmissing)
      · rw [hpointer hmode]
        have hsome := FieldMode.isPointer_iff.1 hmode ▸ hkind
        exact not_or.1 fun hmissing => h (.targetMissing hsome hmissing)
    exact ⟨Option.isSome_iff_ne_none.2 hpresent.1,
      fun type htype hempty => hpresent.2 (hempty ▸ htype)⟩

/-- A member of a struct is refused exactly if it is flawed. -/
theorem toField_eq_error : (∃ e, member.toField = .error e) ↔ member.Flawed := by
  rw [exists_error_iff, not_iff_comm]
  constructor
  · intro h
    obtain ⟨mode, hkind, hisArray⟩ := exists_mode_of_not_flawed h
    obtain ⟨extents, hshape, hshape_iff, hpositive⟩ := exists_shape_of_not_flawed h
    obtain ⟨htype_iff, hnonempty⟩ := reference_of_not_flawed h hkind
    obtain ⟨hdeclared, hpointer, hnone⟩ := reference_eq_iff.1 (Eq.refl (member.reference mode.kind))
    have hfits : Field.Fits mode extents (member.reference mode.kind) :=
      ⟨hshape_iff.trans hisArray.symm, hpositive, htype_iff, hnonempty⟩
    exact ⟨⟨member.name, "", mode, extents, member.reference mode.kind, hfits⟩, toField_eq_ok.2
      ⟨rfl, rfl, hkind, hisArray, hshape, hdeclared, hpointer, hnone⟩⟩
  · rintro ⟨field, hfield⟩
    exact (toField_eq_ok.1 hfield).not_flawed

/-- A member of the model class becomes a field of the model, whatever else it says. -/
theorem toModelField_eq_ok : member.toModelField = .ok field ↔
    member.isArray = false ∧ field = .ofModel member.name := by
  have hfield : member.isArray = false → member.toModelField = .ok (.ofModel member.name) := by
    intro harray
    exact bind_eq_ok.2 ⟨.model, FieldMode.classify_eq_ok.2 ⟨rfl, harray.symm⟩, rfl⟩
  constructor
  · intro h
    obtain ⟨mode, hmode, -⟩ := bind_eq_ok.1 h
    have harray : member.isArray = false := eq_false_of_ne_true fun harray =>
      (FieldMode.exists_mode_iff.1 ⟨mode, FieldMode.classify_eq_ok.1 hmode⟩).2 ⟨rfl, harray⟩
    exact ⟨harray, Except.ok.inj (h.symm.trans (hfield harray))⟩
  · rintro ⟨harray, rfl⟩
    exact hfield harray

theorem toModelField_eq_error : (∃ e, member.toModelField = .error e) ↔ member.isArray = true := by
  rw [exists_error_iff, ← Bool.not_eq_false, not_iff_not]
  exact ⟨fun ⟨_, h⟩ => (toModelField_eq_ok.1 h).1, fun h => ⟨_, toModelField_eq_ok.2 ⟨h, rfl⟩⟩⟩

/-- The constant of a member of an enum. -/
structure DescribesConstant (member : MetadataMember) (e : Enumerator) : Prop where
  name : e.name = member.name
  doc : e.doc = ""
  value : member.value = some e.value

theorem toEnumerator_eq_ok {e : Enumerator} :
    member.toEnumerator = .ok e ↔ member.DescribesConstant e := by
  unfold toEnumerator
  constructor
  · intro h
    split at h
    · cases h
    · rename_i value hvalue
      cases h
      exact ⟨rfl, rfl, hvalue⟩
  · intro h
    obtain ⟨name, doc, value⟩ := e
    obtain ⟨rfl, rfl, hvalue⟩ := h
    rw [hvalue]

theorem toEnumerator_eq_error : (∃ e, member.toEnumerator = .error e) ↔ member.value = none := by
  unfold toEnumerator
  cases member.value with
  | none => simp
  | some value => simp

end MetadataMember

/-! ## Structs -/

namespace MetadataStruct

variable {struct : MetadataStruct} {type : TypeDefinition}

/-- The type of a struct of the metadata, which may be an enum. -/
inductive Describes (struct : MetadataStruct) : TypeDefinition → Prop where
  | struct {fields : List Field} (h : struct.isEnum = false)
    (hfields : List.Forall₂ MetadataMember.Describes struct.members fields) :
    Describes struct ⟨struct.name, "", struct.location, .fields fields⟩
  | enum {enumerators : List Enumerator} (h : struct.isEnum = true)
    (henumerators : List.Forall₂ MetadataMember.DescribesConstant struct.members enumerators) :
    Describes struct ⟨struct.name, "", struct.location, .enumerators enumerators⟩

/-- What keeps a struct of the metadata from having a type. -/
inductive Flawed (struct : MetadataStruct) : Prop where
  | member {member : MetadataMember} (h : struct.isEnum = false) (hmem : member ∈ struct.members)
    (hflaw : member.Flawed)
  | valueMissing {member : MetadataMember} (h : struct.isEnum = true)
    (hmem : member ∈ struct.members) (hvalue : member.value = none)

theorem describes_of_toDefinition (h : struct.toDefinition = .ok type) : struct.Describes type := by
  unfold toDefinition at h
  split_ifs at h with henum
  · obtain ⟨enumerators, henumerators, rfl⟩ := map_eq_ok.1 h
    exact .enum henum ((mapM_eq_ok.1 henumerators).imp fun _ _ => MetadataMember.toEnumerator_eq_ok.1)
  · obtain ⟨fields, hfields, rfl⟩ := map_eq_ok.1 h
    exact .struct (eq_false_of_ne_true henum)
      ((mapM_eq_ok.1 hfields).imp fun _ _ => MetadataMember.describes_of_toField)

theorem toDefinition_eq_error : (∃ e, struct.toDefinition = .error e) ↔ struct.Flawed := by
  unfold toDefinition
  split_ifs with henum
  · rw [exists_map_error_iff, exists_mapM_error_iff]
    simp only [MetadataMember.toEnumerator_eq_error]
    constructor
    · rintro ⟨member, hmem, hvalue⟩
      exact .valueMissing henum hmem hvalue
    · rintro (⟨h, -, -⟩ | ⟨-, hmem, hvalue⟩)
      · exact absurd henum (ne_true_of_eq_false h)
      · exact ⟨_, hmem, hvalue⟩
  · rw [exists_map_error_iff, exists_mapM_error_iff]
    simp only [MetadataMember.toField_eq_error]
    constructor
    · rintro ⟨member, hmem, hflaw⟩
      exact .member (eq_false_of_ne_true henum) hmem hflaw
    · rintro (⟨-, hmem, hflaw⟩ | ⟨h, -, -⟩)
      · exact ⟨_, hmem, hflaw⟩
      · exact absurd h henum

end MetadataStruct

namespace MetadataClass

variable {model : MetadataClass}

theorem toFields_eq_ok {fields : List Field} (h : model.toFields = .ok fields) :
    fields = model.members.map fun member => .ofModel member.name := by
  rw [eq_comm, ← List.forall₂_eq_eq_eq, List.forall₂_map_left_iff]
  exact (mapM_eq_ok.1 h).imp fun _ _ hfield => (MetadataMember.toModelField_eq_ok.1 hfield).2.symm

theorem toFields_eq_error :
    (∃ e, model.toFields = .error e) ↔ ∃ member ∈ model.members, member.isArray = true := by
  unfold toFields
  rw [exists_mapM_error_iff]
  simp only [MetadataMember.toModelField_eq_error]

end MetadataClass

/-! ## Building -/

namespace Context

/--
A context has a type for each struct of the metadata and a field for each member of the model class,
in their order. The members of the model class are refused exactly if one is an array, and a struct
exactly if it is flawed.
-/
theorem build_translates_metadata :
    (∀ metadata settings env sources headers context,
      build metadata settings env sources headers = .ok context →
      List.Forall₂ MetadataStruct.Describes metadata.structs context.module.types.definitions ∧
        context.module.modelClass.fields =
          metadata.modelClass.members.map fun member => .ofModel member.name) ∧
    (∀ model : MetadataClass, (∃ e, model.toFields = .error e) ↔
      ∃ member ∈ model.members, member.isArray = true) ∧
    ∀ struct : MetadataStruct, (∃ e, struct.toDefinition = .error e) ↔ struct.Flawed := by
  refine ⟨fun metadata settings env sources headers context h => ?_,
    fun _ => MetadataClass.toFields_eq_error, fun _ => MetadataStruct.toDefinition_eq_error⟩
  obtain ⟨model, hmodel, definitions, hdefinitions, types, htypes, -, module, hprepare, rfl⟩ :=
    build_eq_ok.1 h
  obtain ⟨-, -, rfl⟩ := Module.prepare_eq_ok.1 hprepare
  obtain ⟨fields, hfields, rfl⟩ := map_eq_ok.1 hmodel
  obtain ⟨_, rfl⟩ := TypeTable.make_eq_ok.1 htypes
  exact ⟨(mapM_eq_ok.1 hdefinitions).imp fun _ _ => MetadataStruct.describes_of_toDefinition,
    MetadataClass.toFields_eq_ok hfields⟩

end Context

namespace Crane

/-- An enum, a struct with an array, and one whose members refer to both of them. -/
def metadata : Metadata where
  name := "crane"
  description := ""
  author := ""
  version := ""
  sampleTime := .zero false
  modelClass := ⟨"Crane", "", "Crane", [], [⟨"state", some "struct", false, none, none, none, none⟩],
    .empty, .empty⟩
  structs := [
    ⟨"Gear", .root, true, [⟨"idle", none, false, none, none, none, some 0⟩,
      ⟨"lift", none, false, none, none, none, some 5⟩]⟩,
    ⟨"Hook", .modelClass, false, [⟨"load", some "plain", true, some (.axis 3), none, none, none⟩]⟩,
    ⟨"Arm", .root, false, [⟨"hook", some "struct", false, none, some "Hook", none, none⟩,
      ⟨"gear", some "enum", false, none, some "Gear", none, none⟩,
      ⟨"cables", some "pointer", true, some (.axes [2, 3]), none, some "Hook", none⟩]⟩]

def env : Environment := ⟨false, false, false, false, false, none, .default, .empty⟩

def context : Context where
  sources := []
  headers := []
  module := {
    name := "crane", doc := "", version := "", author := "", license := ""
    modelClass := {
      name := "Crane", doc := "", codeNamespace := "", identifier := "Crane"
      sampleTime := .zero false
      methods := [], fields := [.ofModel "state"]
      fieldMapping := .empty, typeMapping := .empty }
    types := ⟨"Crane", [
      ⟨"Gear", "", .root, .enumerators [⟨"idle", "", 0⟩, ⟨"lift", "", 5⟩]⟩,
      ⟨"Hook", "", .modelClass, .fields [⟨"load", "", .plainArray, some [3], none, by decide⟩]⟩,
      ⟨"Arm", "", .root, .fields [⟨"hook", "", .struct, none, some "Hook", by decide⟩,
        ⟨"gear", "", .enum, none, some "Gear", by decide⟩,
        ⟨"cables", "", .pointerArray, some [2, 3], some "Hook", by decide⟩]⟩], by decide⟩
    env := env }

/-- A hook whose load has no extent. -/
def flawedHook : MetadataStruct :=
  ⟨"Hook", .root, false, [⟨"load", some "plain", true, some (.axis 0), none, none, none⟩]⟩

theorem translated_context :
    Context.build metadata (.make "crane" "Crane" "") env [] [] = .ok context ∧
    List.Forall₂ MetadataStruct.Describes metadata.structs context.module.types.definitions ∧
    (∃ e, flawedHook.toDefinition = .error e) := by
  have hbuild : Context.build metadata (.make "crane" "Crane" "") env [] [] = .ok context := rfl
  obtain ⟨htranslated, -, hrefused⟩ := Context.build_translates_metadata
  exact ⟨hbuild, (htranslated _ _ _ _ _ _ hbuild).1,
    (hrefused flawedHook).2 (.member rfl List.mem_cons_self (.axisZero rfl rfl))⟩

end Crane

end ModelBinding
