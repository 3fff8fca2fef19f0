import ModelBinding.Proofs.Number.Rounding

/-!
# Decimals and the numbers that they denote

Two decimals of one value denote one number, and the shortest decimal of a magnitude denotes that
magnitude.
-/
namespace ModelBinding

namespace Binary64

/-- The rank nearest to `coefficient * 10 ^ exponent`. -/
def decimalRank (coefficient : Nat) (exponent : Int) : Nat :=
  nearestRank (coefficient * 10 ^ exponent.toNat) (10 ^ (-exponent).toNat)

theorem finiteCount_le_decimalRank {coefficient : Nat} {exponent : Int} (hc : coefficient ≠ 0)
    (he : 309 < exponent) : finiteCount ≤ decimalRank coefficient exponent := by
  have hneg : (-exponent).toNat = 0 := by omega
  apply finiteCount_le_nearestRank (by positivity)
  rw [hneg, Nat.pow_zero, Nat.mul_one]
  calc 2 ^ 1024 ≤ 10 ^ 310 := by decide +kernel
    _ ≤ 10 ^ exponent.toNat := Nat.pow_le_pow_right (by omega) (by omega)
    _ ≤ coefficient * 10 ^ exponent.toNat := Nat.le_mul_of_pos_left _ (by omega)

theorem decimalRank_of_small {coefficient : Nat} {exponent : Int}
    (he : exponent + coefficient.log2 + 1 < -324) : decimalRank coefficient exponent = 0 := by
  obtain ⟨k, hk⟩ : ∃ k : Nat, (-exponent).toNat = k + (coefficient.log2 + 1) + 324 :=
    ⟨(-exponent).toNat - (coefficient.log2 + 1) - 324, by omega⟩
  have hpos : exponent.toNat = 0 := by omega
  have hcoefficient : coefficient < 10 ^ (coefficient.log2 + 1) :=
    Nat.lt_of_lt_of_le Nat.lt_log2_self (Nat.pow_le_pow_left (by omega) _)
  have hunits : 2 * unitsPerOne ≤ 10 ^ 324 := by decide +kernel
  apply nearestRank_of_small
  rw [hpos, Nat.pow_zero, Nat.mul_one, hk, Nat.pow_add, Nat.pow_add]
  calc 2 * coefficient * unitsPerOne = coefficient * (2 * unitsPerOne) := by ring
    _ < 10 ^ (coefficient.log2 + 1) * 10 ^ 324 :=
      Nat.mul_lt_mul_of_lt_of_le hcoefficient hunits (Nat.pow_pos (by omega))
    _ ≤ 10 ^ k * (10 ^ (coefficient.log2 + 1) * 10 ^ 324) :=
      Nat.le_mul_of_pos_left _ (by positivity)
    _ = 10 ^ k * 10 ^ (coefficient.log2 + 1) * 10 ^ 324 := by ring

/-- The decimals that are not computed come out as if they were. -/
theorem ofDecimal_eq_ofRank (negative : Bool) (coefficient : Nat) (exponent : Int) :
    ofDecimal negative coefficient exponent = ofRank negative (decimalRank coefficient exponent) := by
  unfold ofDecimal
  split_ifs with hzero hlarge hsmall hsign
  · rw [hzero, decimalRank, Nat.zero_mul, nearestRank_zero (by positivity), zero]
  · rw [ofRank_of_le (finiteCount_le_decimalRank hzero hlarge)]
  · rw [decimalRank_of_small hsmall, zero]
  · have hneg : (-exponent).toNat = 0 := by omega
    rw [decimalRank, hneg, Nat.pow_zero, ofRatio, Nat.pow_eq]
  · have hpos : exponent.toNat = 0 := by omega
    rw [decimalRank, hpos, Nat.pow_zero, Nat.mul_one, ofRatio, Nat.pow_eq]

/-- Zeros at the end of a coefficient can be counted in the exponent. -/
theorem decimalRank_mul_pow (coefficient k : Nat) (exponent : Int) :
    decimalRank (coefficient * 10 ^ k) exponent = decimalRank coefficient (exponent + k) := by
  unfold decimalRank
  apply nearestRank_congr (by positivity) (by positivity)
  have hsum : k + exponent.toNat + (-(exponent + k)).toNat =
      (exponent + k).toNat + (-exponent).toNat := by omega
  calc coefficient * 10 ^ k * 10 ^ exponent.toNat * 10 ^ (-(exponent + k)).toNat
      = coefficient * 10 ^ (k + exponent.toNat + (-(exponent + k)).toNat) := by
        rw [Nat.pow_add, Nat.pow_add]
        ring
    _ = coefficient * 10 ^ (exponent + k).toNat * 10 ^ (-exponent).toNat := by
        rw [hsum, Nat.pow_add]
        ring

theorem ofDecimal_mul_pow (negative : Bool) (coefficient k : Nat) (exponent : Int) :
    ofDecimal negative (coefficient * 10 ^ k) exponent =
      ofDecimal negative coefficient (exponent + k) := by
  rw [ofDecimal_eq_ofRank, ofDecimal_eq_ofRank, decimalRank_mul_pow]

theorem ofDecimal_zero (negative : Bool) (exponent : Int) :
    ofDecimal negative 0 exponent = .zero negative := if_pos rfl

theorem ofRank_inj {negative : Bool} {rank other : Nat} (h : other < finiteCount)
    (he : ofRank negative rank = ofRank negative other) : rank = other := by
  rw [ofRank_of_lt h] at he
  by_cases hr : rank < finiteCount
  · rw [ofRank_of_lt hr] at he
    exact Fin.mk.inj (Binary64.finite.inj he).2
  · rw [ofRank_of_le (by omega)] at he
    exact absurd he (by simp)

theorem readsAs_iff {rank : Nat} (h : rank < finiteCount) (d : Decimal) :
    readsAs rank d = true ↔ decimalRank d.coefficient d.exponent = rank := by
  rw [readsAs, decide_eq_true_iff, ofDecimal_eq_ofRank]
  exact ⟨ofRank_inj h, fun he => by rw [he]⟩

theorem ten_pow (n : Nat) : 10 ^ n = 5 ^ n * 2 ^ n := by
  rw [← Nat.mul_pow]

/-- The complete expansion denotes the magnitude itself. -/
theorem decimalRank_expansion (rank : Nat) :
    decimalRank (expansion rank).coefficient (expansion rank).exponent = rank := by
  have hten : (10 : Nat) ^ 1074 = 5 ^ 1074 * unitsPerOne := by
    rw [unitsPerOne_eq, ten_pow]
  have hpos : ((-1074 : Int)).toNat = 0 := rfl
  have hneg : (-(-1074 : Int)).toNat = 1074 := rfl
  rw [expansion, decimalRank, hpos, hneg, Nat.pow_zero, Nat.mul_one, Nat.pow_eq]
  calc nearestRank (units rank * 5 ^ 1074) (10 ^ 1074)
      = nearestRank (units rank) unitsPerOne := by
        apply nearestRank_congr (Nat.pow_pos (by omega)) unitsPerOne_pos
        rw [hten]
        ring
    _ = rank := nearestRank_units rank

theorem readsAs_of_neighbour? {tie : TieRule} {rank : Nat} {exponent : Int} {d : Decimal}
    (h : neighbour? tie rank exponent = some d) : readsAs rank d = true := by
  unfold neighbour? at h
  dsimp only at h
  split at h
  · cases h
  · simp_all
  · simp_all
  · split_ifs at h <;> cases tie <;> simp_all

/-- The shortest decimal reads back. -/
theorem decimalRank_shortest (tie : TieRule) {rank : Nat} (h : rank < finiteCount) :
    decimalRank (shortest tie rank).coefficient (shortest tie rank).exponent = rank := by
  unfold shortest
  dsimp only
  split_ifs with h0
  · rw [decimalRank, Nat.zero_mul, nearestRank_zero (Nat.pow_pos (by omega)), h0]
  · cases hs : (List.range 17).findSome? fun (n : Nat) =>
        neighbour? tie rank (leadingExponent rank - n) with
    | none => rw [Option.getD_none, decimalRank_expansion]
    | some d =>
      obtain ⟨n, -, hn⟩ := List.exists_of_findSome?_eq_some hs
      exact (readsAs_iff h d).1 (readsAs_of_neighbour? hn)

end Binary64

end ModelBinding
