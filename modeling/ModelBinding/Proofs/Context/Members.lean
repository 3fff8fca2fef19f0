import ModelBinding.Proofs.Context.Floats
import ModelBinding.Proofs.Document.Recovery

/-!
# Types and the model class in documents

Definitions of types and of the model class come out of every document that shows them. A field and
a table of types are made of what they consist of, and of nothing else.
-/
namespace ModelBinding

variable {view : View} {isMap : Bool} {v : Value}

/-! ## Fields -/

namespace Field

/-- A field is made exactly if shape and type go with the mode. -/
theorem make_eq_ok {name doc : String} {fieldMode : FieldMode} {shape : Option (List UInt64)}
    {type : Option String} {field : Field} : make name doc fieldMode shape type = .ok field ↔
      ∃ fits, ⟨name, doc, fieldMode, shape, type, fits⟩ = field := by
  unfold make
  split
  · rename_i flaw hshape
    refine iff_of_false (fun h => nomatch h) ?_
    rintro ⟨fits, -⟩
    exact Option.some_ne_none flaw (hshape.symm.trans (fits_iff.1 fits).1)
  · split
    · rename_i flaw htype
      refine iff_of_false (fun h => nomatch h) ?_
      rintro ⟨fits, -⟩
      exact Option.some_ne_none flaw (htype.symm.trans (fits_iff.1 fits).2)
    · rename_i hshape htype
      rw [Except.ok.injEq]
      exact ⟨fun h => ⟨_, h⟩, fun ⟨_, h⟩ => h⟩

theorem make_self (field : Field) :
    make field.name field.doc field.mode field.rawShape field.typeName = .ok field :=
  make_eq_ok.2 ⟨field.fits, rfl⟩

theorem shape_shown (shape : List UInt64) :
    Decoder.sequence .uint64 (view.shown isMap (shapeValue (some shape))) = .ok shape :=
  Decoder.sequence_shown fun n _ => Decoder.uint64_shown n

theorem mode_shown (fieldMode : FieldMode) :
    FieldMode.decode (view.shown isMap (.integer (.ofNat fieldMode.number))) = .ok fieldMode := by
  rw [view.integer]
  cases fieldMode with
  | _ => rfl

theorem recovers_shape {fields : List (String × Value)} (shape : Option (List UInt64))
    (hlookup : fields.lookup "shape" = some (shapeValue shape)) :
    (Record.optional "shape" (.sequence .uint64)).Recovers view fields shape := by
  cases shape with
  | none => exact .optional_null hlookup (by decide)
  | some shape => exact .optional hlookup (by decide) (fun h => nomatch h) (shape_shown shape)

theorem decode_shown (field : Field) : decode (view.shown false field.toValue) = .ok field := by
  refine Decoder.refine_eq_ok.2 ⟨.ok field, ?_, rfl⟩
  rw [← make_self field]
  apply Decoder.record_shown (by simp)
  refine .seq (.seq (.seq (.seq (.map make ?name) ?doc) ?mode) ?shape) ?type
  case name => exact .text rfl (by decide)
  case doc => exact .doc rfl
  case mode => exact .required rfl (by decide) (fun h => nomatch h) (mode_shown field.mode)
  case shape => exact recovers_shape field.rawShape rfl
  case type => exact .optionalText rfl (by decide)

theorem dumps (field : Field) {depth : Nat} : field.toValue.Dumps (depth + 2) := by
  have hshape : (shapeValue field.rawShape).Dumps (depth + 1) := by
    cases field.rawShape with
    | none => exact Value.dumps_null
    | some shape => exact Value.dumps_sequence_map fun n _ => Value.dumps_ofUInt64 n
  exact Value.dumps_ofEntries (by simp [hshape])

end Field

/-! ## Types -/

namespace MemberEntry

/-- The entry that a field is written as. -/
def ofField (field : Field) : MemberEntry :=
  ⟨field.name, field.doc, some field.mode, field.rawShape, field.typeName, none⟩

/-- The entry that an enumerator is written as. -/
def ofEnumerator (e : Enumerator) : MemberEntry := ⟨e.name, e.doc, none, none, none, some e.value⟩

theorem toField_ofField (owner : String) (field : Field) : (ofField field).toField owner = .ok field :=
  field.make_self

theorem decode_field (field : Field) :
    decode (view.shown false field.toValue) = .ok (ofField field) := by
  apply Decoder.record_shown (by simp)
  refine .seq (.seq (.seq (.seq (.seq (.map mk ?name) ?doc) ?mode) ?shape) ?type) ?value
  case name => exact .text rfl (by decide)
  case doc => exact .doc rfl
  case mode => exact .optional rfl (by decide) (fun h => nomatch h) (Field.mode_shown field.mode)
  case shape => exact Field.recovers_shape field.rawShape rfl
  case type => exact .optionalText rfl (by decide)
  case value => exact .optional_absent rfl (by decide)

theorem decode_enumerator (e : Enumerator) :
    decode (view.shown false e.toValue) = .ok (ofEnumerator e) := by
  apply Decoder.record_shown (by simp)
  refine .seq (.seq (.seq (.seq (.seq (.map mk ?name) ?doc) ?mode) ?shape) ?type) ?value
  case name => exact .text rfl (by decide)
  case doc => exact .doc rfl
  case mode => exact .optional_absent rfl (by decide)
  case shape => exact .optional_absent rfl (by decide)
  case type => exact .optional_absent rfl (by decide)
  case value => exact .optional rfl (by decide) (fun h => nomatch h) (by rw [view.integer]; rfl)

end MemberEntry

theorem Enumerator.dumps (e : Enumerator) {depth : Nat} : e.toValue.Dumps (depth + 1) :=
  Value.dumps_ofEntries (by simp)

namespace Members

/-- The entries that the members are written as. -/
def entries : Members → List MemberEntry
  | .fields list => list.map .ofField
  | .enumerators list => list.map .ofEnumerator

theorem decode_shown (members : Members) :
    Decoder.sequence MemberEntry.decode (view.shown isMap members.toValue) = .ok members.entries := by
  cases members with
  | fields list => exact Decoder.sequence_shown_map fun field _ => MemberEntry.decode_field field
  | enumerators list => exact Decoder.sequence_shown_map fun e _ => MemberEntry.decode_enumerator e

theorem dumps (members : Members) {depth : Nat} : members.toValue.Dumps (depth + 3) := by
  cases members with
  | fields list => exact Value.dumps_sequence_map fun field _ => field.dumps
  | enumerators list => exact Value.dumps_sequence_map fun e _ => e.dumps

end Members

namespace TypeDefinition

theorem ofEntries_entries (type : TypeDefinition) :
    ofEntries type.name type.doc type.location type.isEnum type.members.entries = .ok type := by
  obtain ⟨name, doc, location, members⟩ := type
  cases members with
  | fields list =>
    have hfields : (list.map .ofField).mapM (MemberEntry.toField name) = .ok list := by
      rw [mapM_eq_ok, List.forall₂_map_left_iff, List.forall₂_same]
      exact fun field _ => MemberEntry.toField_ofField name field
    exact map_eq_ok.2 ⟨list, hfields, rfl⟩
  | enumerators list =>
    have henumerators : (list.map .ofEnumerator).mapM (MemberEntry.toEnumerator name) =
        .ok list := by
      rw [mapM_eq_ok, List.forall₂_map_left_iff, List.forall₂_same]
      exact fun e _ => rfl
    exact map_eq_ok.2 ⟨list, henumerators, rfl⟩

end TypeDefinition

namespace PlacedType

theorem decode_shown (type : PlacedType) :
    TypeDefinition.decode (view.shown false type.toValue) = .ok type.definition := by
  refine Decoder.refine_eq_ok.2 ⟨.ok type.definition, ?_, rfl⟩
  rw [← type.definition.ofEntries_entries]
  apply Decoder.record_shown (by simp)
  refine .seq (.seq (.seq (.seq (.map _ ?name) ?doc) ?location) ?isEnum) ?members
  case name => exact .text rfl (by decide)
  case doc => exact .doc rfl
  case location =>
    refine .required rfl (by decide) (fun h => nomatch h) ?_
    rw [view.text]
    cases type.definition.location with
    | _ => rfl
  case isEnum => exact .booleanOr rfl (by decide)
  case members => exact .required rfl (by decide) (fun h => nomatch h) (Members.decode_shown _)

theorem dumps (type : PlacedType) {depth : Nat} : type.toValue.Dumps (depth + 4) := by
  have hmembers : type.definition.members.toValue.Dumps (depth + 3) := Members.dumps _
  exact Value.dumps_ofEntries (by simp [hmembers])

end PlacedType

namespace TypeTable

/-- A table is made exactly of types with distinct identities. -/
theorem make_eq_ok {definitions : List TypeDefinition} {classIdentifier : String}
    {table : TypeTable} : make definitions classIdentifier = .ok table ↔
      ∃ distinct, ⟨classIdentifier, definitions, distinct⟩ = table := by
  unfold make
  split
  · rename_i identity hrepeated
    refine iff_of_false (fun h => nomatch h) ?_
    rintro ⟨distinct, -⟩
    exact Option.some_ne_none identity (hrepeated.symm.trans (firstRepeated?_nil_eq_none.2 distinct))
  · rw [Except.ok.injEq]
    exact ⟨fun h => ⟨_, h⟩, fun ⟨_, h⟩ => h⟩

theorem make_self (table : TypeTable) :
    make table.definitions table.classIdentifier = .ok table :=
  make_eq_ok.2 ⟨table.distinct, rfl⟩

theorem map_definition_types (table : TypeTable) :
    table.types.map PlacedType.definition = table.definitions := by
  rw [types, List.map_map]
  exact List.zipIdx_map_fst 0 _

theorem decode_shown (table : TypeTable) :
    Decoder.sequence TypeDefinition.decode (view.shown isMap table.toValue) = .ok table.definitions := by
  rw [← table.map_definition_types]
  exact Decoder.sequence_shown_map fun type _ => PlacedType.decode_shown type

theorem dumps (table : TypeTable) {depth : Nat} : table.toValue.Dumps (depth + 5) :=
  Value.dumps_sequence_map fun type _ => type.dumps

end TypeTable

/-! ## The model class -/

namespace Method

theorem decode_shown (method : Method) : decode (view.shown false method.toValue) = .ok method := by
  apply Decoder.record_shown (by simp)
  refine .seq (.map mk ?name) ?doc
  case name => exact .text rfl (by decide)
  case doc => exact .doc rfl

theorem dumps (method : Method) {depth : Nat} : method.toValue.Dumps (depth + 1) :=
  Value.dumps_ofEntries (by simp)

end Method

namespace ModelClass

theorem mapping_shown (mapping : TextMap String) :
    Decoder.textMap .text (view.shown true (mappingValue mapping)) = .ok mapping :=
  Decoder.textMap_shown (fun _ h => nomatch h) fun _ _ => by rw [view.text]; rfl

theorem dumps_mapping (mapping : TextMap String) {depth : Nat} :
    (mappingValue mapping).Dumps (depth + 1) := by
  refine Value.dumps_table (keyOrdered_map _ mapping.ordered) fun entry hentry => ?_
  obtain ⟨_, -, rfl⟩ := List.mem_map.1 hentry
  exact Value.dumps_text _

theorem decode_shown {model : ModelClass} (hsaid : view.Says model.sampleTime) :
    decode (view.shown false model.toValue) = .ok (model.mapFloats view.reread) := by
  apply Decoder.record_shown (by simp)
  refine .seq (.seq (.seq (.seq (.seq (.seq (.seq (.seq (.map mk ?name) ?doc) ?codeNamespace)
    ?identifier) ?sampleTime) ?methods) ?fields) ?fieldMapping) ?typeMapping
  case name => exact .text rfl (by decide)
  case doc => exact .doc rfl
  case codeNamespace => exact .textOr rfl (by decide)
  case identifier => exact .text rfl (by decide)
  case sampleTime =>
    exact .required rfl (by decide) (fun h => nomatch h) (by rw [view.float _ _ hsaid]; rfl)
  case methods =>
    exact .required rfl (by decide) (fun h => nomatch h)
      (Decoder.sequence_shown fun method _ => method.decode_shown)
  case fields =>
    exact .required rfl (by decide) (fun h => nomatch h)
      (Decoder.sequence_shown fun field _ => field.decode_shown)
  case fieldMapping =>
    exact .required rfl (by decide) (fun h => nomatch h) (mapping_shown model.fieldMapping)
  case typeMapping =>
    exact .required rfl (by decide) (fun h => nomatch h) (mapping_shown model.typeMapping)

theorem dumps (model : ModelClass) {depth : Nat} : model.toValue.Dumps (depth + 4) := by
  have hmethods : (Value.sequence (model.methods.map Method.toValue)).Dumps (depth + 3) :=
    Value.dumps_sequence_map fun method _ => method.dumps
  have hfields : (Value.sequence (model.fields.map Field.toValue)).Dumps (depth + 3) :=
    Value.dumps_sequence_map fun field _ => field.dumps
  have hmapping : ∀ mapping, (mappingValue mapping).Dumps (depth + 3) :=
    fun mapping => dumps_mapping mapping
  exact Value.dumps_ofEntries (by simp [hmethods, hfields, hmapping])

end ModelClass

end ModelBinding
