import ModelBinding.Proofs.Context.Fields
import ModelBinding.Proofs.Environment.Spaces
import ModelBinding.Proofs.Literal.Sequences

/-!
# The check of a space

A space passes the check exactly if its counts and axes are positive, its bounds have an element for all or
for each of the elements of the space, and the type of the space has them. What passes can be written.
-/
namespace ModelBinding

/-! ## Scalars of a type -/

/-- An integer type has a scalar as the integer that it is, a floating point type unless it is no number. -/
structure ElementType.Admits (type : ElementType) (value : Scalar) : Prop where
  integral : type.isInteger = true → ∃ i : Int, value.value? = some (i : ℚ) ∧ type.Represents i
  number : type.isFloat = true → value.isNan = false

namespace Literal

variable {value : Scalar} {type : ElementType}

theorem exists_integer_iff : (∃ text, integer value type = .ok text) ↔
    ∃ i : Int, value.value? = some (i : ℚ) ∧ type.Represents i := by
  constructor
  · rintro ⟨text, h⟩
    obtain ⟨i, hvalue, hi, -⟩ := integer_eq_ok.1 h
    exact ⟨i, hvalue, hi⟩
  · rintro ⟨i, hvalue, hi⟩
    exact ⟨toString i, integer_eq_ok.2 ⟨i, hvalue, hi, isDecimal_iff.2 rfl⟩⟩

/-- A type has literals for the scalars that it has. -/
theorem exists_number_iff : (∃ text, number value type = .ok text) ↔ type.Admits value := by
  cases hfloat : type.isFloat with
  | true =>
    constructor
    · rintro ⟨text, h⟩
      refine ⟨fun hinteger => ?_, fun _ => isNan_of_number h⟩
      cases hfloat.symm.trans (ElementType.isInteger_eq_true.1 hinteger)
    · exact fun h => exists_number hfloat (h.number hfloat)
  | false =>
    have hinteger := ElementType.isInteger_eq_true.2 hfloat
    rw [number, if_pos hinteger, exists_integer_iff]
    exact ⟨fun h => ⟨fun _ => h, fun htype => absurd htype (ne_true_of_eq_false hfloat)⟩,
      fun h => h.integral hinteger⟩

theorem exists_sequence_iff {values : List Scalar} :
    (∃ text, sequence values type = .ok text) ↔ ∀ value ∈ values, type.Admits value := by
  rw [sequence, exists_map_ok_iff, exists_mapM_ok_iff]
  simp only [exists_number_iff]

theorem exists_bound_iff {bound : Bound} :
    (∃ text, Literal.bound bound type = .ok text) ↔ ∀ value ∈ bound.scalars, type.Admits value := by
  cases bound with
  | scalar value => exact exists_number_iff.trans List.forall_mem_singleton.symm
  | each values => exact exists_sequence_iff

end Literal

/-! ## Spaces -/

/-- One scalar for all elements or one for each, and the type has them. -/
structure Bound.Fits (size : Nat) (type : ElementType) (bound : Bound) : Prop where
  length_eq : ∀ values, bound = .each values → values.length = size
  admits : ∀ value ∈ bound.scalars, type.Admits value

namespace Space

variable {space : Space} {low high : Bound} {shape : List UInt64} {type : ElementType} {size : Nat} {side : Side}

/-- Axes and counts are positive, and bounds fit. -/
def Sensible : Space → Prop
  | .box low high shape type =>
    shape ≠ [] ∧ (∀ axis ∈ shape, 0 < axis.toNat) ∧
      low.Fits (shape.map UInt64.toNat).prod type ∧ high.Fits (shape.map UInt64.toNat).prod type
  | .discrete n | .multiBinary n => 0 < n.toInt
  | .multiDiscrete cardinalities => cardinalities ≠ [] ∧ ∀ n ∈ cardinalities, 0 < n.toInt

theorem boundFlaw?_eq_none {bound : Bound} : boundFlaw? size side bound = none ↔
    ∀ values, bound = .each values → values.length = size := by
  unfold boundFlaw?
  cases bound with
  | scalar value => simp [Bound.isSequence]
  | each values => simp [Bound.isSequence, Bound.length]

theorem zero_notMem_iff : 0 ∉ shape ↔ ∀ axis ∈ shape, 0 < axis.toNat := by
  constructor
  · intro h axis haxis
    exact Field.extents_positive h _ (List.mem_map_of_mem haxis)
  · exact fun h hzero => absurd (h 0 hzero) (by decide)

theorem flaw?_box_eq_none : (box low high shape type).flaw? = none ↔
    shape ≠ [] ∧ (∀ axis ∈ shape, 0 < axis.toNat) ∧
      (∀ values, low = .each values → values.length = (shape.map UInt64.toNat).prod) ∧
      ∀ values, high = .each values → values.length = (shape.map UInt64.toNat).prod := by
  have hvolume : Field.volume (Field.extents shape) = (shape.map UInt64.toNat).prod := Field.volume_eq_prod _
  have hpositive : (shape.isEmpty || shape.contains 0) = false ↔
      shape ≠ [] ∧ ∀ axis ∈ shape, 0 < axis.toNat := by
    rw [Bool.or_eq_false_iff, List.isEmpty_eq_false_iff, ← zero_notMem_iff, List.contains_eq_mem,
      decide_eq_false_iff_not]
  simp only [flaw?, hvolume]
  rw [← and_assoc, ← hpositive]
  split_ifs with hempty
  · exact iff_of_false id fun h => absurd hempty (ne_true_of_eq_false h.1)
  · rw [Option.or_eq_none_iff, boundFlaw?_eq_none, boundFlaw?_eq_none, and_iff_right (eq_false_of_ne_true hempty)]

theorem flaw?_multiDiscrete_eq_none {cardinalities : List Int64} :
    (multiDiscrete cardinalities).flaw? = none ↔ cardinalities ≠ [] ∧ ∀ n ∈ cardinalities, 0 < n.toInt := by
  rw [flaw?]
  split_ifs with hempty
  · exact iff_of_false id fun h => h.1 (List.isEmpty_iff.1 hempty)
  · rw [Option.map_eq_none_iff, List.find?_eq_none, and_iff_right fun h => hempty (List.isEmpty_iff.2 h)]
    simp only [decide_eq_true_iff, Int.not_le]

theorem exists_initializer_box_iff : (∃ text, (box low high shape type).initializer = .ok text) ↔
    (∀ value ∈ low.scalars, type.Admits value) ∧ ∀ value ∈ high.scalars, type.Admits value := by
  rw [← Literal.exists_bound_iff, ← Literal.exists_bound_iff]
  constructor
  · rintro ⟨text, h⟩
    obtain ⟨lowText, highText, hlow, hhigh, -⟩ := initializer_box_eq_ok.1 h
    exact ⟨⟨lowText, hlow⟩, ⟨highText, hhigh⟩⟩
  · rintro ⟨⟨lowText, hlow⟩, ⟨highText, hhigh⟩⟩
    exact ⟨_, initializer_box_eq_ok.2 ⟨lowText, highText, hlow, hhigh, rfl⟩⟩

theorem check_eq_ok {role : String} :
    space.check role = .ok () ↔ space.flaw? = none ∧ ∃ text, space.initializer = .ok text := by
  unfold check
  cases space.flaw? with
  | some flaw => simp
  | none => cases space.initializer <;> simp

theorem sensible_iff : space.Sensible ↔ space.flaw? = none ∧ ∃ text, space.initializer = .ok text := by
  cases space with
  | box low high shape type =>
    rw [flaw?_box_eq_none, exists_initializer_box_iff]
    constructor
    · rintro ⟨hne, hpos, hlow, hhigh⟩
      exact ⟨⟨hne, hpos, hlow.length_eq, hhigh.length_eq⟩, hlow.admits, hhigh.admits⟩
    · rintro ⟨⟨hne, hpos, hlow, hhigh⟩, hlows, hhighs⟩
      exact ⟨hne, hpos, ⟨hlow, hlows⟩, ⟨hhigh, hhighs⟩⟩
  | discrete n | multiBinary n =>
    rw [and_iff_left ⟨_, rfl⟩, flaw?]
    split_ifs with hle
    · exact iff_of_false (Int.not_lt.2 hle) id
    · exact iff_of_true (Int.not_le.1 hle) rfl
  | multiDiscrete cardinalities =>
    rw [and_iff_left ⟨_, integers_eq cardinalities⟩, flaw?_multiDiscrete_eq_none]
    exact Iff.rfl

/-- The check passes exactly the sensible spaces, and each of them can be written. -/
theorem check_exact (space : Space) (role : String) :
    (space.check role = .ok () ↔ space.Sensible) ∧
    (space.check role = .ok () → ∃ text, space.initializer = .ok text) :=
  ⟨check_eq_ok.trans sensible_iff.symm, fun h => (check_eq_ok.1 h).2⟩

theorem check_exact_pair :
    let pair : Space :=
      .box (.scalar (.infinity true)) (.each [.int 1, .float Literal.quarterMillionth]) [2, 1] .float32
    pair.check "action" = .ok () ∧ pair.Sensible ∧ ∃ text, pair.initializer = .ok text := by
  intro pair
  have hinitializer : pair.initializer =
      .ok "-std::numeric_limits<float>::infinity(), \x7b 1.0F, -2.5e-7F \x7d, \x7b 2, 1 \x7d" := by decide +kernel
  have hcheck : pair.check "action" = .ok () := check_of_initializer rfl hinitializer
  exact ⟨hcheck, (check_exact pair "action").1.1 hcheck, (check_exact pair "action").2 hcheck⟩

end Space

end ModelBinding
