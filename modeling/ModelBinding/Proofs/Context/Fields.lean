import ModelBinding.Proofs.Context.Built

/-!
# The fields of a context

However a context comes about, each of its fields has a shape and names a type exactly as its mode
says; what is derived from the shape follows.
-/
namespace ModelBinding

namespace FieldMode

/-- The modes that name a type are those of structs, of enums and of pointers. -/
theorem namesType_iff {mode : FieldMode} :
    mode.namesType = true ↔ mode.isStruct = true ∨ mode.isEnum = true ∨ mode.isPointer = true := by
  cases mode with
  | _ => decide

end FieldMode

namespace Field

variable {field : Field}

/-- What the mode asks of shape and type, and what follows for the shape in row-major order. -/
structure MatchesMode (field : Field) : Prop where
  shape_iff : field.rawShape.isSome = true ↔ field.mode.isArray = true
  shape_positive : ∀ raw, field.rawShape = some raw → raw ≠ [] ∧ ∀ axis ∈ raw, 1 ≤ axis.toNat
  type_iff : field.typeName.isSome = true ↔
    field.mode.isStruct = true ∨ field.mode.isEnum = true ∨ field.mode.isPointer = true
  type_nonempty : ∀ type, field.typeName = some type → type ≠ ""
  rowMajor_iff : field.shape?.isSome = true ↔ field.mode.isArray = true
  rowMajor_positive : ∀ shape, field.shape? = some shape → ∀ axis ∈ shape, 1 ≤ axis
  volume_array : ∀ shape, field.shape? = some shape → ∃ raw, field.rawShape = some raw ∧
    shape.prod = (raw.map UInt64.toNat).prod ∧ field.size = (raw.map UInt64.toNat).prod
  size_single : field.mode.isArray = false → field.size = 1

theorem volume_eq_prod (shape : List Nat) : volume shape = shape.prod := List.prod_eq_foldl.symm

/-- Neither turning a shape around nor joining the axes of a row or a column changes its product. -/
theorem prod_rowMajor (shape : List Nat) : (rowMajor shape).prod = shape.prod := by
  unfold rowMajor
  split
  · rename_i a b
    split_ifs with hline
    · simp
    · simp [Nat.mul_comm]
  · exact shape.reverse_perm.prod_eq

theorem rowMajor_positive {shape : List Nat} (h : ∀ axis ∈ shape, 1 ≤ axis) :
    ∀ axis ∈ rowMajor shape, 1 ≤ axis := by
  unfold rowMajor
  split
  · rename_i a b
    obtain ⟨ha, hb⟩ : 1 ≤ a ∧ 1 ≤ b := by simpa using h
    split_ifs with hline
    · exact List.forall_mem_singleton.2 (Nat.mul_pos ha hb)
    · exact List.forall_mem_cons.2 ⟨hb, List.forall_mem_singleton.2 ha⟩
  · exact fun axis haxis => h axis (List.mem_reverse.1 haxis)

theorem extents_positive {raw : List UInt64} (h : 0 ∉ raw) : ∀ axis ∈ extents raw, 1 ≤ axis := by
  intro axis haxis
  obtain ⟨n, hn, rfl⟩ := List.mem_map.1 haxis
  have hne : n ≠ 0 := fun hzero => h (hzero ▸ hn)
  exact Nat.one_le_iff_ne_zero.2 fun hzero => hne (UInt64.toNat_inj.1 hzero)

theorem shape?_eq_some {shape : List Nat} : field.shape? = some shape ↔
    ∃ raw, field.rawShape = some raw ∧ rowMajor (extents raw) = shape :=
  Option.map_eq_some_iff

theorem isSome_shape? : field.shape?.isSome = field.rawShape.isSome := Option.isSome_map

theorem size_of_shape {shape : List Nat} (h : field.shape? = some shape) : field.size = shape.prod := by
  rw [size, h]
  exact volume_eq_prod shape

theorem size_of_no_shape (h : field.shape? = none) : field.size = 1 := by
  rw [size, h]

/-- The number of elements does not depend on which way round the shape is. -/
theorem size_of_rawShape {raw : List UInt64} (h : field.rawShape = some raw) :
    field.size = (raw.map UInt64.toNat).prod :=
  (size_of_shape (shape?_eq_some.2 ⟨raw, h, rfl⟩)).trans (prod_rowMajor _)

theorem size_of_no_rawShape (h : field.rawShape = none) : field.size = 1 :=
  size_of_no_shape (Option.map_eq_none_iff.2 h)

/-- The product of some words is that of their numbers, as far as a word holds it. -/
theorem toNat_foldl_mul (raw : List UInt64) (start : UInt64) :
    (raw.foldl (· * ·) start).toNat = start.toNat * (raw.map UInt64.toNat).prod % 2 ^ 64 := by
  induction raw generalizing start with
  | nil => rw [List.foldl_nil, List.map_nil, List.prod_nil, Nat.mul_one,
      Nat.mod_eq_of_lt start.toNat_lt]
  | cons n raw ih => rw [List.foldl_cons, ih, UInt64.toNat_mul, Nat.mod_mul_mod, List.map_cons,
      List.prod_cons, Nat.mul_assoc]

/-- What a word counts is the number of elements, unless that is too great for it. -/
theorem toNat_count (field : Field) : field.count.toNat = field.size % 2 ^ 64 := by
  unfold count
  cases h : field.rawShape with
  | none =>
    rw [size_of_no_rawShape h]
    rfl
  | some raw =>
    rw [size_of_rawShape h]
    exact (toNat_foldl_mul raw 1).trans (by rw [UInt64.toNat_one, Nat.one_mul])

theorem matchesMode (field : Field) : field.MatchesMode where
  shape_iff := by rw [field.fits.shape_iff]
  shape_positive raw hraw := by
    obtain ⟨hnonempty, hzero⟩ := field.fits.shape_positive raw hraw
    exact ⟨hnonempty, fun axis haxis => extents_positive hzero _ (List.mem_map_of_mem haxis)⟩
  type_iff := by rw [field.fits.type_iff, FieldMode.namesType_iff]
  type_nonempty := field.fits.type_nonempty
  rowMajor_iff := by rw [isSome_shape?, field.fits.shape_iff]
  rowMajor_positive shape hshape := by
    obtain ⟨raw, hraw, rfl⟩ := shape?_eq_some.1 hshape
    exact rowMajor_positive (extents_positive (field.fits.shape_positive raw hraw).2)
  volume_array shape hshape := by
    obtain ⟨raw, hraw, rfl⟩ := shape?_eq_some.1 hshape
    exact ⟨raw, hraw, prod_rowMajor _, size_of_rawShape hraw⟩
  size_single harray := by
    apply size_of_no_rawShape
    rw [← Option.not_isSome_iff_eq_none, field.fits.shape_iff, harray]
    decide

end Field

namespace Context

/-- The contexts that there are: read from a text or from a value, or built. -/
inductive Obtained : Context → Prop where
  | loaded {text : String} {context : Context} (h : ofJson text = .ok context) : Obtained context
  | reconstructed {v : Value} {context : Context} (h : reconstruct v = .ok context) :
    Obtained context
  | built {metadata : Metadata} {settings : ModelSettings} {env : Environment}
    {sources headers : List String} {context : Context}
    (h : build metadata settings env sources headers = .ok context) : Obtained context

/-- A field of the model class or of a struct. -/
def HasField (context : Context) (field : Field) : Prop :=
  field ∈ context.module.modelClass.fields ∨
    ∃ type ∈ context.module.types.definitions, field ∈ type.fields

variable {context : Context} {field : Field}

/--
Every field of a context matches its mode, whether the context was read or built: in all of these ways a
field comes about only together with the proof that it fits.
-/
theorem fields_match_modes :
    context.Obtained → context.HasField field → field.MatchesMode :=
  fun _ _ => field.matchesMode

/-- A row of six elements. -/
def row : Field := ⟨"row", "", .pointerArray, some [1, 6], some "Cell", by decide⟩

def rowValue : Value := .table [
  ("mode", .integer 8), ("name", .text "row"), ("shape", .sequence [.integer 1, .integer 6]),
  ("type", .text "Cell")]

/-- A value of the sketch with the row in a struct. -/
def rowSketchValue : Value := .table [
  ("headers", .sequence []),
  ("module", .table [
    ("author", .text ""),
    ("env", .table [
      ("use_gym", .boolean false), ("use_raw", .boolean true), ("use_rng", .boolean false),
      ("use_vec", .boolean false), ("vec_parallel", .boolean false)]),
    ("license", .text ""),
    ("model_class", .table [
      ("field_mapping", .table []), ("fields", .sequence []), ("identifier", .text "C"),
      ("methods", .sequence []), ("name", .text "C"), ("sample_time", .float half),
      ("type_mapping", .table [])]),
    ("name", .text "m"),
    ("types", .sequence [.table [
      ("fields", .sequence [rowValue]), ("location", .text "root"), ("name", .text "Rows")]]),
    ("version", .text "1")]),
  ("sources", .sequence [])]

def rowSketch : Context where
  sources := []
  headers := []
  module := {
    name := "m", doc := "", version := "1", author := "", license := ""
    modelClass := {
      name := "C", doc := "", codeNamespace := "", identifier := "C"
      sampleTime := half
      methods := [], fields := [], fieldMapping := .empty, typeMapping := .empty }
    types := ⟨"C", [⟨"Rows", "", .root, .fields [row]⟩], by decide⟩
    env := ⟨true, false, false, false, false, none, .default, .empty⟩ }

theorem row_matches_mode : reconstruct rowSketchValue = .ok rowSketch ∧ rowSketch.HasField row ∧
    row.MatchesMode := by
  have hread : reconstruct rowSketchValue = .ok rowSketch := rfl
  have hfield : rowSketch.HasField row := .inr ⟨_, List.mem_cons_self, List.mem_cons_self⟩
  exact ⟨hread, hfield, fields_match_modes (.reconstructed hread) hfield⟩

end Context

end ModelBinding
