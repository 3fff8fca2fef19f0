import ModelBinding.Proofs.Context.Fields

/-!
# The layout of arrays

Generated code lays arrays out with their first axis running fastest. The shape that is derived for them is
for readers to whom the last axis runs fastest, and they find each element at the same place.
-/
namespace ModelBinding.Field

variable {field : Field} {shape index other : List Nat}

/-! ## Places of elements -/

/-- An index has one number for each axis, below its extent. -/
def Inside (shape index : List Nat) : Prop := List.Forall₂ (· < ·) index shape

/-- How many elements come before one if the first axis runs fastest. -/
def columnOffset : List Nat → List Nat → Nat
  | n :: shape, i :: index => i + n * columnOffset shape index
  | _, _ => 0

/-- How many elements come before one if the last axis runs fastest. -/
def rowOffset : List Nat → List Nat → Nat
  | _ :: shape, i :: index => i * shape.prod + rowOffset shape index
  | _, _ => 0

theorem rowOffset_concat (hlength : index.length = shape.length) (n i : Nat) :
    rowOffset (shape ++ [n]) (index ++ [i]) = rowOffset shape index * n + i := by
  induction shape generalizing index with
  | nil =>
    obtain rfl := List.length_eq_zero_iff.1 hlength
    simp [rowOffset]
  | cons m shape ih =>
    cases index with
    | nil => cases hlength
    | cons j index =>
      rw [List.cons_append, List.cons_append, rowOffset, rowOffset, ih (Nat.succ.inj hlength), List.prod_append,
        List.prod_singleton]
      ring

/-- Turned around, shape and index give the same place. -/
theorem rowOffset_reverse (h : Inside shape index) :
    rowOffset shape.reverse index.reverse = columnOffset shape index := by
  induction h with
  | nil => rfl
  | @cons i n index shape _ hrest ih =>
    have hlength : index.reverse.length = shape.reverse.length := by
      rw [List.length_reverse, List.length_reverse, hrest.length_eq]
    -- The axis that runs fastest is the first one here and the last one there.
    rw [List.reverse_cons, List.reverse_cons, rowOffset_concat hlength, ih, columnOffset]
    ring

theorem Inside.reverse (h : Inside shape index) : Inside shape.reverse index.reverse :=
  List.forall₂_reverse_iff.2 h

theorem rowOffset_lt (h : Inside shape index) : rowOffset shape index < shape.prod := by
  induction h with
  | nil => exact Nat.one_pos
  | @cons i n index shape hlt _ ih =>
    rw [rowOffset, List.prod_cons]
    calc i * shape.prod + rowOffset shape index
      _ < i * shape.prod + shape.prod := Nat.add_lt_add_left ih _
      _ = (i + 1) * shape.prod := (Nat.succ_mul i _).symm
      _ ≤ n * shape.prod := Nat.mul_le_mul_right _ hlt

/-- The place of an element says where on the first axis it is, and its place from there on. -/
theorem rowOffset_cons {n i : Nat} (h : Inside shape index) :
    rowOffset (n :: shape) (i :: index) / shape.prod = i ∧
      rowOffset (n :: shape) (i :: index) % shape.prod = rowOffset shape index := by
  have hlt := rowOffset_lt h
  have hpos : 0 < shape.prod := Nat.zero_lt_of_lt hlt
  rw [rowOffset, Nat.add_comm, Nat.add_mul_div_right _ _ hpos, Nat.add_mul_mod_self_right,
    Nat.div_eq_of_lt hlt, Nat.mod_eq_of_lt hlt, Nat.zero_add]
  exact ⟨rfl, rfl⟩

theorem rowOffset_injective (h : Inside shape index) (hother : Inside shape other)
    (heq : rowOffset shape index = rowOffset shape other) : index = other := by
  induction h generalizing other with
  | nil =>
    cases hother
    rfl
  | cons _ hrest ih =>
    cases hother with
    | cons _ hotherRest =>
      obtain ⟨hfirst, htail⟩ := rowOffset_cons hrest
      obtain ⟨hotherFirst, hotherTail⟩ := rowOffset_cons hotherRest
      rw [heq] at hfirst htail
      rw [hfirst.symm.trans hotherFirst, ih hotherRest (htail.symm.trans hotherTail)]

theorem exists_index {k : Nat} (h : k < shape.prod) :
    ∃ index, Inside shape index ∧ rowOffset shape index = k := by
  induction shape generalizing k with
  | nil => exact ⟨[], .nil, (Nat.lt_one_iff.1 h).symm⟩
  | cons n shape ih =>
    rw [List.prod_cons] at h
    have hpos : 0 < shape.prod := Nat.pos_of_ne_zero fun hzero => by simp [hzero] at h
    obtain ⟨index, hindex, hoffset⟩ := ih (Nat.mod_lt k hpos)
    refine ⟨k / shape.prod :: index, .cons ((Nat.div_lt_iff_lt_mul hpos).2 h) hindex, ?_⟩
    rw [rowOffset, hoffset]
    exact Nat.div_add_mod' k _

/-- Each place is that of one element. -/
theorem existsUnique_index {k : Nat} (h : k < shape.prod) :
    ∃! index, Inside shape index ∧ rowOffset shape index = k := by
  obtain ⟨index, hindex, hoffset⟩ := exists_index h
  exact ⟨index, ⟨hindex, hoffset⟩, fun _ ⟨hother, heq⟩ =>
    rowOffset_injective hother hindex (heq.trans hoffset.symm)⟩

/-! ## The derived shape -/

/-- Elements are at the same places: those of a row or a column under the index along it, all others under
the index turned around. -/
structure SameLayout (raw shape : List Nat) : Prop where
  reversed : (∀ a b, raw = [a, b] → a ≠ 1 ∧ b ≠ 1) → ∀ index, Inside raw index →
    Inside shape index.reverse ∧ rowOffset shape index.reverse = columnOffset raw index
  row : ∀ n, raw = [1, n] → ∀ i j, Inside raw [i, j] →
    Inside shape [j] ∧ rowOffset shape [j] = columnOffset raw [i, j]
  column : ∀ n, raw = [n, 1] → ∀ i j, Inside raw [i, j] →
    Inside shape [i] ∧ rowOffset shape [i] = columnOffset raw [i, j]

theorem rowMajor_eq_reverse (h : ∀ a b, shape = [a, b] → a ≠ 1 ∧ b ≠ 1) :
    rowMajor shape = shape.reverse := by
  unfold rowMajor
  split
  · rename_i a b
    obtain ⟨ha, hb⟩ := h a b rfl
    rw [if_neg (not_or.2 ⟨ha, hb⟩)]
    rfl
  · rfl

theorem rowMajor_row (n : Nat) : rowMajor [1, n] = [n] := by
  simp [rowMajor]

theorem rowMajor_column (n : Nat) : rowMajor [n, 1] = [n] := by
  simp [rowMajor]

theorem inside_pair {m n i j : Nat} : Inside [m, n] [i, j] ↔ i < m ∧ j < n := by
  simp [Inside]

theorem inside_single {n i : Nat} : Inside [n] [i] ↔ i < n := by
  simp [Inside]

theorem sameLayout_rowMajor (raw : List Nat) : SameLayout raw (rowMajor raw) where
  reversed hraw index hindex := by
    rw [rowMajor_eq_reverse hraw]
    exact ⟨hindex.reverse, rowOffset_reverse hindex⟩
  row n hraw i j hindex := by
    subst hraw
    obtain ⟨hi, hj⟩ := inside_pair.1 hindex
    obtain rfl := Nat.lt_one_iff.1 hi
    rw [rowMajor_row, inside_single]
    exact ⟨hj, by simp [rowOffset, columnOffset]⟩
  column n hraw i j hindex := by
    subst hraw
    obtain ⟨hi, hj⟩ := inside_pair.1 hindex
    obtain rfl := Nat.lt_one_iff.1 hj
    rw [rowMajor_column, inside_single]
    exact ⟨hi, by simp [rowOffset, columnOffset]⟩

/--
The derived shape of an array field has its elements where the raw shape has them, and the indices inside of
it are those of the elements, each at a place of its own.
-/
theorem shape_sameLayout {raw : List UInt64} (h : field.rawShape = some raw) :
    ∃ shape, field.shape? = some shape ∧ SameLayout (raw.map UInt64.toNat) shape ∧
      (∀ index, Inside shape index → rowOffset shape index < field.size) ∧
      ∀ k < field.size, ∃! index, Inside shape index ∧ rowOffset shape index = k := by
  have hshape : field.shape? = some (rowMajor (extents raw)) := shape?_eq_some.2 ⟨raw, h, rfl⟩
  refine ⟨_, hshape, sameLayout_rowMajor _, ?_⟩
  rw [size_of_shape hshape]
  exact ⟨fun _ => rowOffset_lt, fun _ => existsUnique_index⟩

/-- An array of three axes. -/
def cuboid : Field := ⟨"cuboid", "", .plainArray, some [2, 3, 4], none, by decide⟩

theorem shape_sameLayout_cuboid :
    cuboid.rawShape = some [2, 3, 4] ∧ cuboid.shape? = some [4, 3, 2] ∧
      (rowOffset [4, 3, 2] [3, 1, 0] = columnOffset [2, 3, 4] [0, 1, 3]) ∧
      ∃! index, Inside [4, 3, 2] index ∧ rowOffset [4, 3, 2] index = 23 := by
  have hraw : cuboid.rawShape = some [2, 3, 4] := rfl
  obtain ⟨shape, hshape, hlayout, -, hunique⟩ := shape_sameLayout hraw
  obtain rfl : [4, 3, 2] = shape := Option.some.inj hshape
  have hindex : Inside [2, 3, 4] [0, 1, 3] := by simp [Inside]
  exact ⟨hraw, hshape, (hlayout.reversed (fun _ _ h => nomatch h) _ hindex).2, hunique 23 (by decide)⟩

end ModelBinding.Field
