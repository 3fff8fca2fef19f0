import ModelBinding.Literal.Render
import ModelBinding.Proofs.Number.Rounding
import ModelBinding.Proofs.Text

/-!
# Integer literals

A scalar is a rational number, an infinity or none, whatever form it has. It has a literal of an integer
type exactly if it is an integer that fits the bits of the type, and the literal is its decimal.
-/
namespace ModelBinding

/-! ## Values -/

namespace Binary64

/-- The magnitude of a rank: its upper bits are an exponent, the lower 52 a fraction, which follows a bit
that is one unless the exponent is zero. -/
def magnitude (rank : Nat) : ℚ :=
  if rank / 2 ^ 52 = 0 then (rank % 2 ^ 52 : ℕ) * (2 : ℚ) ^ (-1074 : ℤ)
  else (2 ^ 52 + rank % 2 ^ 52 : ℕ) * (2 : ℚ) ^ ((rank / 2 ^ 52 : ℕ) - 1075 : ℤ)

/-- The number that a finite one is. -/
def value? : Binary64 → Option ℚ
  | .finite negative rank => some (if negative then -magnitude rank else magnitude rank)
  | _ => none

theorem magnitude_eq (rank : Nat) : magnitude rank = units rank / unitsPerOne := by
  have hone : ((2 ^ 1074 : ℕ) : ℚ) = 2 ^ (1074 : ℤ) := by rw [Nat.cast_pow]; rfl
  rw [unitsPerOne_eq, hone]
  rcases rank_cases rank with h | ⟨q, r, hr, rfl⟩
  · rw [magnitude, if_pos (Nat.div_eq_of_lt h), Nat.mod_eq_of_lt h, units_of_lt h, zpow_neg, div_eq_mul_inv]
  · have hdiv : ((q + 1) * 2 ^ 52 + r) / 2 ^ 52 = q + 1 := by omega
    have hmod : ((q + 1) * 2 ^ 52 + r) % 2 ^ 52 = r := by omega
    have hexponent : ((q + 1 : ℕ) - 1075 : ℤ) = q - 1074 := by omega
    rw [magnitude, hdiv, hmod, if_neg (Nat.succ_ne_zero q), units_block q r hr, hexponent,
      zpow_sub₀ two_ne_zero, zpow_natCast, Nat.cast_mul, Nat.cast_pow, mul_div_assoc]
    rfl

/-- A magnitude is an integer if its units make whole ones. -/
theorem magnitude_eq_natCast {rank n : Nat} : magnitude rank = n ↔ units rank = n * unitsPerOne := by
  have hpos : (unitsPerOne : ℚ) ≠ 0 := Nat.cast_ne_zero.2 unitsPerOne_pos.ne'
  rw [magnitude_eq, div_eq_iff hpos, ← Nat.cast_mul, Nat.cast_inj]

theorem magnitude_eq_intCast {rank : Nat} {i : Int} : magnitude rank = i ↔
    units rank % unitsPerOne = 0 ∧ (units rank / unitsPerOne : Int) = i := by
  rw [← Int.natCast_ediv]
  constructor
  · intro h
    have hnonneg : (0 : ℚ) ≤ i := by
      rw [← h, magnitude_eq]
      positivity
    obtain ⟨n, rfl⟩ := Int.eq_ofNat_of_zero_le (Int.cast_nonneg_iff.1 hnonneg)
    rw [Int.cast_natCast] at h
    rw [magnitude_eq_natCast.1 h, Nat.mul_mod_left, Nat.mul_div_cancel _ unitsPerOne_pos]
    exact ⟨rfl, rfl⟩
  · rintro ⟨hmod, rfl⟩
    rw [Int.cast_natCast, magnitude_eq_natCast, Nat.div_mul_cancel (Nat.dvd_of_mod_eq_zero hmod)]

theorem toInt?_eq_some {x : Binary64} {i : Int} : x.toInt? = some i ↔ x.value? = some (i : ℚ) := by
  cases x with
  | nan => exact iff_of_false (Option.some_ne_none i).symm (Option.some_ne_none _).symm
  | infinite negative => exact iff_of_false (Option.some_ne_none i).symm (Option.some_ne_none _).symm
  | finite negative rank =>
    have hsign : (if negative then -magnitude rank else magnitude rank) = (i : ℚ) ↔
        magnitude rank = ((if negative then -i else i : Int) : ℚ) := by
      cases negative with
      | false => exact Iff.rfl
      | true =>
        rw [if_pos rfl, if_pos rfl, Int.cast_neg]
        exact neg_eq_iff_eq_neg
    rw [toInt?, value?, Option.some.injEq, hsign, magnitude_eq_intCast]
    by_cases hmod : units rank % unitsPerOne = 0
    · rw [if_pos hmod, and_iff_right hmod, Option.some.injEq]
      cases negative with
      | false => exact Iff.rfl
      | true => exact neg_eq_iff_eq_neg
    · rw [if_neg hmod]
      exact iff_of_false (Option.some_ne_none i).symm fun h => hmod h.1

theorem value?_zero (negative : Bool) : (zero negative).value? = some 0 := by
  have hpos : 0 < finiteCount := by decide
  have hmagnitude : magnitude 0 = 0 := by simp [magnitude]
  rw [zero, ofRank, dif_pos hpos, value?, Option.some.injEq]
  change (if negative then -magnitude 0 else magnitude 0) = 0
  rw [hmagnitude, neg_zero, ite_self]

end Binary64

namespace Scalar

/-- The number that the scalar is, whatever its form. -/
def value? : Scalar → Option ℚ
  | .int i => some i.toInt
  | .uint n => some n.toNat
  | .float x => x.value?
  | .infinity _ => none

theorem toInt?_eq_some {s : Scalar} {i : Int} : s.toInt? = some i ↔ s.value? = some (i : ℚ) := by
  cases s with
  | int n => rw [toInt?, value?, Option.some.injEq, Option.some.injEq, Int.cast_inj]
  | uint n =>
    rw [toInt?, value?, Option.some.injEq, Option.some.injEq]
    norm_cast
  | float x => exact Binary64.toInt?_eq_some
  | infinity negative => exact iff_of_false (Option.some_ne_none i).symm (Option.some_ne_none _).symm

end Scalar

/-! ## Types -/

/-- Some bits are the number without a sign. -/
def IsUnsigned (width : Nat) (i : Int) : Prop := ∃ bits : BitVec width, (bits.toNat : Int) = i

/-- Some bits are the number in two's complement. -/
def IsSigned (width : Nat) (i : Int) : Prop := ∃ bits : BitVec width, bits.toInt = i

theorem isUnsigned_iff {width : Nat} {i : Int} : IsUnsigned width i ↔ 0 ≤ i ∧ i < 2 ^ width := by
  constructor
  · rintro ⟨bits, rfl⟩
    exact ⟨Int.natCast_nonneg _, by exact_mod_cast bits.isLt⟩
  · rintro ⟨hnonneg, hlt⟩
    obtain ⟨n, rfl⟩ := Int.eq_ofNat_of_zero_le hnonneg
    exact ⟨.ofNat width n, by rw [BitVec.toNat_ofNat, Nat.mod_eq_of_lt (by exact_mod_cast hlt)]⟩

theorem isSigned_iff {width : Nat} {i : Int} :
    IsSigned (width + 1) i ↔ -2 ^ width ≤ i ∧ i < 2 ^ width := by
  constructor
  · rintro ⟨bits, rfl⟩
    exact ⟨bits.le_toInt, bits.toInt_lt⟩
  · rintro ⟨hle, hlt⟩
    exact ⟨.ofInt (width + 1) i, BitVec.toInt_ofInt_eq_self (Nat.succ_pos width) hle hlt⟩

namespace ElementType

/-- The type has the integer. -/
def Represents : ElementType → Int → Prop
  | .uint8 => IsUnsigned 8
  | .int8 => IsSigned 8
  | .uint16 => IsUnsigned 16
  | .int16 => IsSigned 16
  | .uint32 => IsUnsigned 32
  | .int32 => IsSigned 32
  | .uint64 => IsUnsigned 64
  | .int64 => IsSigned 64
  | .float32 | .float64 => fun _ => False

theorem represents_iff {type : ElementType} {least greatest i : Int} (h : type.range? = some (least, greatest)) :
    type.Represents i ↔ least ≤ i ∧ i ≤ greatest := by
  cases type with
  | float32 | float64 => cases h
  | uint8 | uint16 | uint32 | uint64 =>
    cases h
    refine isUnsigned_iff.trans ?_
    omega
  | int8 | int16 | int32 | int64 =>
    cases h
    refine isSigned_iff.trans ?_
    omega

theorem not_represents {type : ElementType} (h : type.range? = none) (i : Int) : ¬ type.Represents i := by
  cases type with
  | float32 | float64 => exact id
  | _ => cases h

theorem range?_eq_none {type : ElementType} : type.range? = none ↔ type.isInteger = false := by
  rw [isInteger_iff_range, Option.isSome_eq_false_iff, Option.isNone_iff_eq_none]

theorem represents_zero {type : ElementType} (h : type.isInteger = true) : type.Represents 0 := by
  cases hrange : type.range? with
  | none => cases h.symm.trans (range?_eq_none.1 hrange)
  | some range =>
    rw [represents_iff hrange]
    cases type <;> cases hrange <;> decide

end ElementType

/-! ## Literals -/

/-- The integer in 128 bits, or the one of them that is nearest to it. -/
def clampInt128 (i : Int) : Int := max (-2 ^ 127) (min i (2 ^ 127 - 1))

/-- An integer of a type is not changed, and others stay outside of it. -/
theorem clampInt128_cases {type : ElementType} {least greatest : Int}
    (h : type.range? = some (least, greatest)) (i : Int) :
    (least ≤ i ∧ i ≤ greatest ∧ clampInt128 i = i) ∨
      (¬ (least ≤ i ∧ i ≤ greatest) ∧ ¬ (least ≤ clampInt128 i ∧ clampInt128 i ≤ greatest)) := by
  have hleast : -2 ^ 127 < least := by
    cases type <;> cases h <;> decide
  have hgreatest : greatest < 2 ^ 127 - 1 := by
    cases type <;> cases h <;> decide
  unfold clampInt128
  omega

namespace Literal

variable {value : Scalar} {type : ElementType} {text : String} {e : LiteralError}

/-- The literal of an integer that is kept in 128 bits before it is compared. -/
def clampedInteger (value : Scalar) (type : ElementType) : Except LiteralError String :=
  match value.toInt?.map clampInt128, type.range? with
  | some i, some (least, greatest) =>
    if least ≤ i ∧ i ≤ greatest then .ok (toString i) else .error (.outOfRange value type)
  | _, _ => .error (.notAnInteger value type)

/-- All that keeping an integer in 128 bits can change is by how much it is out of range. -/
theorem integer_eq_clampedInteger (value : Scalar) (type : ElementType) :
    integer value type = clampedInteger value type := by
  unfold integer clampedInteger
  cases value.toInt? with
  | none => rfl
  | some i =>
    cases hrange : type.range? with
    | none => rfl
    | some range =>
      rcases clampInt128_cases hrange i with ⟨hleast, hgreatest, hclamp⟩ | ⟨hout, hclamp⟩
      · simp only [Option.map_some, hclamp]
      · simp only [Option.map_some, if_neg hout, if_neg hclamp]

theorem integer_eq_ok : integer value type = .ok text ↔
    ∃ i : Int, value.value? = some (i : ℚ) ∧ type.Represents i ∧ IsDecimal text i := by
  simp only [← Scalar.toInt?_eq_some, isDecimal_iff]
  unfold integer
  cases value.toInt? with
  | none => exact iff_of_false (fun h => nomatch h) fun ⟨_, h, _⟩ => nomatch h
  | some i =>
    cases hrange : type.range? with
    | none =>
      exact iff_of_false (fun h => nomatch h) fun ⟨j, _, hj, _⟩ => ElementType.not_represents hrange j hj
    | some range =>
      simp only [ElementType.represents_iff hrange, Option.some.injEq, exists_eq_left']
      split_ifs with hfits
      · rw [Except.ok.injEq, and_iff_right hfits, eq_comm]
      · exact iff_of_false (fun h => nomatch h) fun h => hfits h.1

theorem integer_eq_error : integer value type = .error e ↔
    (e = .outOfRange value type ∧ type.isInteger = true ∧
      ∃ i : Int, value.value? = some (i : ℚ) ∧ ¬ type.Represents i) ∨
    (e = .notAnInteger value type ∧
      (type.isInteger = false ∨ ∀ i : Int, value.value? ≠ some (i : ℚ))) := by
  simp only [ne_eq, ← Scalar.toInt?_eq_some]
  unfold integer
  cases value.toInt? with
  | none =>
    constructor
    · rintro ⟨⟩
      exact .inr ⟨rfl, .inr fun _ h => nomatch h⟩
    · rintro (⟨-, -, _, h, -⟩ | ⟨rfl, -⟩)
      · cases h
      · rfl
  | some i =>
    cases hrange : type.range? with
    | none =>
      have htype := ElementType.range?_eq_none.1 hrange
      constructor
      · rintro ⟨⟩
        exact .inr ⟨rfl, .inl htype⟩
      · rintro (⟨-, h, -⟩ | ⟨rfl, -⟩)
        · cases htype.symm.trans h
        · rfl
    | some range =>
      have htype : type.isInteger = true := by
        rw [ElementType.isInteger_iff_range, hrange]
        rfl
      simp only [ElementType.represents_iff hrange, htype, Option.some.injEq, exists_eq_left']
      split_ifs with hfits
      · simp [hfits]
      · simp [hfits, eq_comm]

/--
The literals of an integer type are the decimals of its integers, and a scalar has one if the number that
it is, in whatever form, is one of them. Other integers are out of range, other scalars no integers.
-/
theorem integer_exact (value : Scalar) (type : ElementType) :
    (∀ text, integer value type = .ok text ↔
      ∃ i : Int, value.value? = some (i : ℚ) ∧ type.Represents i ∧ IsDecimal text i) ∧
    (∀ e, integer value type = .error e ↔
      (e = .outOfRange value type ∧ type.isInteger = true ∧
        ∃ i : Int, value.value? = some (i : ℚ) ∧ ¬ type.Represents i) ∨
      (e = .notAnInteger value type ∧
        (type.isInteger = false ∨ ∀ i : Int, value.value? ≠ some (i : ℚ)))) ∧
    (∀ other, other.value? = value.value? → ∀ text,
      integer other type = .ok text ↔ integer value type = .ok text) ∧
    (type.isInteger = true → ∀ negative, integer (.float (.zero negative)) type = .ok "0") ∧
    integer value type = clampedInteger value type := by
  refine ⟨fun _ => integer_eq_ok, fun _ => integer_eq_error, fun other hother text => ?_,
    fun htype negative => ?_, integer_eq_clampedInteger value type⟩
  · rw [integer_eq_ok, integer_eq_ok, hother]
  · exact integer_eq_ok.2 ⟨0, Binary64.value?_zero negative, ElementType.represents_zero htype, isDecimal_iff.2 rfl⟩

/-- Two to the 63rd, which is one more than a signed integer can be. -/
def twoPow63 : Binary64 := .finite false ⟨0x43e0000000000000, by decide⟩

theorem value?_twoPow63 : (Scalar.float twoPow63).value? = (Scalar.uint 0x8000000000000000).value? := by
  change some (Binary64.magnitude 0x43e0000000000000) = some ((0x8000000000000000 : ℕ) : ℚ)
  norm_num [Binary64.magnitude]

theorem integer_exact_twoPow63 :
    (Scalar.float twoPow63).value? = (Scalar.uint 0x8000000000000000).value? ∧
      integer (.float twoPow63) .uint64 = .ok "9223372036854775808" ∧
      integer (.float (.zero true)) .uint64 = .ok "0" :=
  ⟨value?_twoPow63,
    ((integer_exact (.uint 0x8000000000000000) .uint64).2.2.1 _ value?_twoPow63 _).2 rfl,
    (integer_exact (.uint 0x8000000000000000) .uint64).2.2.2.1 rfl true⟩

end Literal

end ModelBinding
