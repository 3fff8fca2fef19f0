import ModelBinding.Environment.Space
import ModelBinding.Proofs.Literal.Integers
import ModelBinding.Proofs.Results

/-!
# The initializer of a box

A box is written as the literals of its bounds and its shape. The bits of an axis are taken for a signed
number before it is written, and every signed number has a literal: no axis is refused, and one that a
signed number cannot be comes out as a negative one.
-/
namespace ModelBinding

namespace Literal

theorem minus_mem_braced_iff {items : List String} :
    '-' ∈ (braced items).toList ↔ ∃ item ∈ items, '-' ∈ item.toList := by
  rw [braced, String.toList_append, String.toList_append, List.mem_append, List.mem_append,
    mem_toList_intercalate (by decide), or_iff_left (by decide), or_iff_right (by decide)]

theorem integer_int64 (n : Int64) : integer (.int n) .int64 = .ok (toString n.toInt) :=
  if_pos ⟨n.le_toInt, Int.le_of_lt_add_one n.toInt_lt⟩

end Literal

namespace Space

variable {low high : Bound} {shape : List UInt64} {axis : UInt64} {type : ElementType}

/-- The number that the bits of an axis are in two's complement. -/
def signedAxis (axis : UInt64) : Int :=
  if axis.toNat < 2 ^ 63 then axis.toNat else axis.toNat - 2 ^ 64

theorem toInt_toInt64 (axis : UInt64) : axis.toInt64.toInt = signedAxis axis := by
  change axis.toBitVec.toInt = _
  rw [BitVec.toInt_eq_toNat_cond]
  unfold signedAxis
  change (if 2 * axis.toNat < 2 ^ 64 then _ else _) = _
  split_ifs <;> first | rfl | omega

theorem signedAxis_eq_iff : signedAxis axis = axis.toNat ↔ axis.toNat < 2 ^ 63 := by
  unfold signedAxis
  split_ifs with h
  · exact iff_of_true rfl h
  · refine iff_of_false ?_ h
    omega

theorem signedAxis_neg_iff : signedAxis axis < 0 ↔ ¬ axis.toNat < 2 ^ 63 := by
  have hlt := axis.toNat_lt
  unfold signedAxis
  split_ifs with h
  · exact iff_of_false (by omega) (not_not.2 h)
  · exact iff_of_true (by omega) h

/-- Signed numbers have literals as they are. -/
theorem integers_eq (ns : List Int64) : integers ns = .ok (Literal.braced (ns.map fun n => toString n.toInt)) := by
  refine map_eq_ok.2 ⟨_, mapM_eq_ok.2 ?_, rfl⟩
  rw [List.forall₂_map_left_iff, List.forall₂_map_right_iff]
  exact List.forall₂_same.2 fun n _ => Literal.integer_int64 n

/-- The shape as it is written. -/
def writtenShape (shape : List UInt64) : String :=
  Literal.braced (shape.map fun axis => toString (signedAxis axis))

/-- The shape as it is. -/
def decimalShape (shape : List UInt64) : String :=
  Literal.braced (shape.map fun axis => toString (axis.toNat : Int))

theorem writtenShape_eq_iff : writtenShape shape = decimalShape shape ↔ ∀ axis ∈ shape, axis.toNat < 2 ^ 63 := by
  constructor
  · intro h axis haxis
    by_contra hlarge
    -- The written shape has a minus, which no shape has.
    have hminus : '-' ∈ (writtenShape shape).toList :=
      Literal.minus_mem_braced_iff.2 ⟨_, List.mem_map_of_mem haxis,
        minus_mem_toString_iff.2 (signedAxis_neg_iff.2 hlarge)⟩
    rw [h] at hminus
    obtain ⟨item, hitem, hmem⟩ := Literal.minus_mem_braced_iff.1 hminus
    obtain ⟨other, -, rfl⟩ := List.mem_map.1 hitem
    exact absurd (minus_mem_toString_iff.1 hmem) (Int.not_lt.2 (Int.natCast_nonneg _))
  · intro h
    unfold writtenShape decimalShape
    rw [List.map_congr_left fun axis haxis => congrArg toString (signedAxis_eq_iff.2 (h axis haxis))]

theorem integers_axes (shape : List UInt64) : integers (shape.map UInt64.toInt64) = .ok (writtenShape shape) := by
  rw [integers_eq, List.map_map, writtenShape]
  refine congrArg (fun items => Except.ok (Literal.braced items)) (List.map_congr_left fun axis _ => ?_)
  exact congrArg toString (toInt_toInt64 axis)

theorem initializer_box_eq_ok {text : String} : (box low high shape type).initializer = .ok text ↔
    ∃ l h, Literal.bound low type = .ok l ∧ Literal.bound high type = .ok h ∧
      text = l ++ ", " ++ h ++ ", " ++ writtenShape shape := by
  rw [initializer, bind_eq_ok]
  constructor
  · rintro ⟨l, hlow, hrest⟩
    obtain ⟨h, hhigh, hrest⟩ := bind_eq_ok.1 hrest
    obtain ⟨s, hshape, hrest⟩ := bind_eq_ok.1 hrest
    cases (integers_axes shape).symm.trans hshape
    cases hrest
    exact ⟨l, h, hlow, hhigh, rfl⟩
  · rintro ⟨l, h, hlow, hhigh, rfl⟩
    exact ⟨l, hlow, bind_eq_ok.2 ⟨h, hhigh, bind_eq_ok.2 ⟨_, integers_axes shape, rfl⟩⟩⟩

theorem initializer_box_eq_error {e : LiteralError} : (box low high shape type).initializer = .error e ↔
    Literal.bound low type = .error e ∨
      ∃ l, Literal.bound low type = .ok l ∧ Literal.bound high type = .error e := by
  rw [initializer, integers_axes]
  cases Literal.bound low type with
  | error e' => simp [bind, Except.bind]
  | ok l =>
    cases Literal.bound high type with
    | error e' => simp [bind, Except.bind]
    | ok h => simp [bind, Except.bind, pure, Except.pure]

theorem pos_of_check {role : String} (h : (box low high shape type).check role = .ok ())
    (haxis : axis ∈ shape) : 0 < axis.toNat := by
  refine Nat.pos_of_ne_zero fun hzero => ?_
  have haxis0 : (0 : UInt64) ∈ shape := by
    rwa [← UInt64.toNat_inj.1 (hzero.trans UInt64.toNat_zero.symm)]
  have hflaw : (box low high shape type).flaw? = some (.shapeNotPositive shape) := by
    simp [flaw?, haxis0]
  rw [check, hflaw] at h
  cases h

/--
A box is written as the literals of its bounds and its shape, and only a bound can keep it from that. The
shape is written as it is exactly if its axes are below two to the 63rd; of a space that passed the check
these are the axes that are written as positive numbers.
-/
theorem box_initializer (low high : Bound) (shape : List UInt64) (type : ElementType) :
    (∀ text, (box low high shape type).initializer = .ok text ↔
      ∃ l h, Literal.bound low type = .ok l ∧ Literal.bound high type = .ok h ∧
        text = l ++ ", " ++ h ++ ", " ++ writtenShape shape) ∧
    (∀ e, (box low high shape type).initializer = .error e ↔ Literal.bound low type = .error e ∨
      ∃ l, Literal.bound low type = .ok l ∧ Literal.bound high type = .error e) ∧
    (∀ l h, Literal.bound low type = .ok l → Literal.bound high type = .ok h →
      ((box low high shape type).initializer = .ok (l ++ ", " ++ h ++ ", " ++ decimalShape shape) ↔
        ∀ axis ∈ shape, axis.toNat < 2 ^ 63)) ∧
    ∀ role, (box low high shape type).check role = .ok () → ∀ axis ∈ shape,
      0 < axis.toNat ∧ (0 < signedAxis axis ↔ axis.toNat < 2 ^ 63) := by
  refine ⟨fun _ => initializer_box_eq_ok, fun _ => initializer_box_eq_error, fun l h hlow hhigh => ?_,
    fun role hcheck axis haxis => ?_⟩
  · rw [initializer_box_eq_ok, ← writtenShape_eq_iff]
    constructor
    · rintro ⟨l', h', hlow', hhigh', htext⟩
      cases hlow.symm.trans hlow'
      cases hhigh.symm.trans hhigh'
      exact ((String.append_right_inj _).1 htext).symm
    · intro hshape
      exact ⟨l, h, hlow, hhigh, by rw [hshape]⟩
  · have hpos := pos_of_check hcheck haxis
    refine ⟨hpos, ?_⟩
    unfold signedAxis
    have hlt := axis.toNat_lt
    split_ifs with hsmall
    · exact iff_of_true (by omega) hsmall
    · exact iff_of_false (by omega) hsmall

/-- A list of numbers from zero to one that is longer than a signed number can say. -/
def hugeBox : Space := .box (.scalar (.int 0)) (.scalar (.int 1)) [0x8000000000000000] .int32

theorem box_initializer_grid :
    (box (.scalar (.int 0)) (.scalar (.int 1)) [2, 3] .int32).initializer = .ok "0, 1, \x7b 2, 3 \x7d" ∧
      0 < signedAxis 2 :=
  ⟨((box_initializer (.scalar (.int 0)) (.scalar (.int 1)) [2, 3] .int32).2.2.1 "0" "1" rfl rfl).2 (by simp),
    ((box_initializer (.scalar (.int 0)) (.scalar (.int 1)) [2, 3] .int32).2.2.2 "action" rfl 2 (by decide)).2.2
      (by decide)⟩

/-- The box is read and passes the check, and its axis is written as another number. -/
theorem hugeBox_initializer :
    decode hugeBox.toValue = .ok hugeBox ∧ hugeBox.check "action" = .ok () ∧
      hugeBox.initializer = .ok "0, 1, \x7b -9223372036854775808 \x7d" ∧
      decimalShape [0x8000000000000000] = "\x7b 9223372036854775808 \x7d" :=
  ⟨rfl, rfl, rfl, rfl⟩

end Space

end ModelBinding
