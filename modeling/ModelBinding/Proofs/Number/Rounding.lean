import Mathlib.Tactic
import ModelBinding.Number.Shortest

/-!
# Rounding to a rank

Every magnitude is the one nearest to itself, and the rank nearest to a fraction depends on the
value of the fraction alone. A decimal therefore rounds to the rank nearest to its exact value:
the powers of ten that are not computed decide nothing else.
-/
namespace ModelBinding.Binary64

theorem blockSize_eq : blockSize = 2 ^ 52 := by norm_num [blockSize]

theorem unitsPerOne_eq : unitsPerOne = 2 ^ 1074 := Nat.one_shiftLeft 1074

theorem unitsPerOne_pos : 0 < unitsPerOne := by
  rw [unitsPerOne_eq]
  exact Nat.two_pow_pos 1074

theorem units_eq (rank : Nat) : units rank =
    if rank < 2 ^ 52 then rank else (2 ^ 52 + rank % 2 ^ 52) <<< (rank / 2 ^ 52 - 1) := by
  rw [units, blockSize_eq]

theorem floorRank_eq (u : Nat) : floorRank u = (u.log2 - 52) * 2 ^ 52 + u / 2 ^ (u.log2 - 52) := by
  rw [floorRank, blockSize_eq, Nat.shiftRight_eq_div_pow]

theorem units_of_lt {rank : Nat} (h : rank < 2 ^ 52) : units rank = rank := by
  rw [units_eq, if_pos h]

/-- The magnitude of a rank in the block `q + 1`. -/
theorem units_block (q r : Nat) (h : r < 2 ^ 52) :
    units ((q + 1) * 2 ^ 52 + r) = (2 ^ 52 + r) * 2 ^ q := by
  have hge : ¬ (q + 1) * 2 ^ 52 + r < 2 ^ 52 := by omega
  have hmod : ((q + 1) * 2 ^ 52 + r) % 2 ^ 52 = r := by omega
  have hdiv : ((q + 1) * 2 ^ 52 + r) / 2 ^ 52 = q + 1 := by omega
  rw [units_eq, if_neg hge, hmod, hdiv, Nat.shiftLeft_eq, Nat.add_sub_cancel]

/-- A rank is below the first block, or in a block at an offset. -/
theorem rank_cases (rank : Nat) :
    rank < 2 ^ 52 ∨ ∃ q r, r < 2 ^ 52 ∧ rank = (q + 1) * 2 ^ 52 + r := by
  by_cases h : rank < 2 ^ 52
  · exact .inl h
  · exact .inr ⟨rank / 2 ^ 52 - 1, rank % 2 ^ 52, by omega, by omega⟩

/-- The magnitude after that of a rank in the block `q + 1`, the first of the next block included. -/
theorem units_block_succ (q r : Nat) (h : r < 2 ^ 52) :
    units ((q + 1) * 2 ^ 52 + r + 1) = (2 ^ 52 + r + 1) * 2 ^ q := by
  by_cases hs : r + 1 < 2 ^ 52
  · rw [Nat.add_assoc, units_block q (r + 1) hs, Nat.add_assoc]
  · have he : (q + 1) * 2 ^ 52 + r + 1 = (q + 1 + 1) * 2 ^ 52 + 0 := by omega
    have hr : 2 ^ 52 + r + 1 = 2 * 2 ^ 52 := by omega
    rw [he, units_block (q + 1) 0 (by norm_num), hr]
    ring

theorem units_lt_succ (rank : Nat) : units rank < units (rank + 1) := by
  rcases rank_cases rank with h | ⟨q, r, hr, rfl⟩
  · by_cases hs : rank + 1 < 2 ^ 52
    · rw [units_of_lt h, units_of_lt hs]
      omega
    · have he : rank + 1 = (0 + 1) * 2 ^ 52 + 0 := by omega
      rw [units_of_lt h, he, units_block 0 0 (by norm_num)]
      omega
  · rw [units_block q r hr, units_block_succ q r hr]
    exact Nat.mul_lt_mul_of_pos_right (by omega) (Nat.two_pow_pos q)

theorem strictMono_units : StrictMono units := strictMono_nat_of_lt_succ units_lt_succ

/-- From the first block on, neighbours differ by at most one part in 2^52. -/
theorem units_succ_le {rank : Nat} (h : 2 ^ 52 ≤ rank) :
    2 ^ 52 * units (rank + 1) ≤ (2 ^ 52 + 1) * units rank := by
  rcases rank_cases rank with hlt | ⟨q, r, hr, rfl⟩
  · omega
  · rw [units_block q r hr, units_block_succ q r hr]
    calc 2 ^ 52 * ((2 ^ 52 + r + 1) * 2 ^ q) = 2 ^ 52 * (2 ^ 52 + r + 1) * 2 ^ q := by ring
      _ ≤ (2 ^ 52 + 1) * (2 ^ 52 + r) * 2 ^ q := Nat.mul_le_mul_right _ (by omega)
      _ = (2 ^ 52 + 1) * ((2 ^ 52 + r) * 2 ^ q) := by ring

/-- A multiple of a power of two is a magnitude if the factor has at most 53 bits. -/
theorem exists_units_eq {m : Nat} (hm : m < 2 ^ 53) (k : Nat) : ∃ rank, units rank = m * 2 ^ k := by
  by_cases hsmall : m * 2 ^ k < 2 ^ 52
  · exact ⟨m * 2 ^ k, units_of_lt hsmall⟩
  · have hm0 : m ≠ 0 := by
      rintro rfl
      simp at hsmall
    have hlog : m.log2 ≤ 52 := by
      have := (Nat.log2_lt hm0).2 hm
      omega
    have hnext : m < 2 ^ (m.log2 + 1) := Nat.lt_log2_self
    have hk : 52 - m.log2 ≤ k := by
      by_contra hlt
      apply hsmall
      calc m * 2 ^ k < 2 ^ (m.log2 + 1) * 2 ^ k := Nat.mul_lt_mul_of_pos_right hnext (Nat.two_pow_pos k)
        _ = 2 ^ (m.log2 + 1 + k) := (Nat.pow_add ..).symm
        _ ≤ 2 ^ 52 := Nat.pow_le_pow_right (by omega) (by omega)
    -- With its leading bit at the place 52 the factor is that of the block of the power that is left.
    obtain ⟨q, rfl⟩ := Nat.exists_eq_add_of_le hk
    have hge : 2 ^ 52 ≤ m * 2 ^ (52 - m.log2) := by
      calc 2 ^ 52 = 2 ^ m.log2 * 2 ^ (52 - m.log2) := by rw [← Nat.pow_add, Nat.add_sub_cancel' hlog]
        _ ≤ m * 2 ^ (52 - m.log2) := Nat.mul_le_mul_right _ (Nat.log2_self_le hm0)
    have hlt : m * 2 ^ (52 - m.log2) < 2 ^ 53 := by
      calc m * 2 ^ (52 - m.log2) < 2 ^ (m.log2 + 1) * 2 ^ (52 - m.log2) :=
            Nat.mul_lt_mul_of_pos_right hnext (Nat.two_pow_pos _)
        _ = 2 ^ 53 := by rw [← Nat.pow_add, show m.log2 + 1 + (52 - m.log2) = 53 by omega]
    obtain ⟨r, hr⟩ := Nat.exists_eq_add_of_le hge
    refine ⟨(q + 1) * 2 ^ 52 + r, ?_⟩
    rw [units_block q r (by omega), ← hr, Nat.mul_assoc, ← Nat.pow_add]

theorem floorRank_units (rank : Nat) : floorRank (units rank) = rank := by
  rcases rank_cases rank with h | ⟨q, r, hr, rfl⟩
  · have hlog : rank.log2 - 52 = 0 := by
      by_cases h0 : rank = 0
      · simp [h0]
      · have := (Nat.log2_lt h0).2 h
        omega
    simp [floorRank_eq, units_of_lt h, hlog]
  · have hlog : ((2 ^ 52 + r) * 2 ^ q).log2 = 52 + q := by
      rw [Nat.log2_eq_iff (by positivity)]
      constructor
      · rw [Nat.pow_add]
        exact Nat.mul_le_mul_right _ (by omega)
      · rw [show 52 + q + 1 = 53 + q by omega, Nat.pow_add]
        exact Nat.mul_lt_mul_of_pos_right (by omega) (Nat.two_pow_pos q)
    rw [units_block q r hr, floorRank_eq, hlog, Nat.add_sub_cancel_left,
      Nat.mul_div_cancel _ (Nat.two_pow_pos q)]
    omega

/-- A number of units lies between the magnitude of its rank and the next. -/
theorem units_floorRank (u : Nat) : units (floorRank u) ≤ u ∧ u < units (floorRank u + 1) := by
  rw [floorRank_eq]
  by_cases hsmall : u < 2 ^ 52
  · have hlog : u.log2 - 52 = 0 := by
      by_cases h0 : u = 0
      · simp [h0]
      · have := (Nat.log2_lt h0).2 hsmall
        omega
    have hsucc := units_lt_succ u
    simp only [hlog, Nat.zero_mul, Nat.zero_add, Nat.pow_zero, Nat.div_one]
    rw [units_of_lt hsmall] at hsucc ⊢
    exact ⟨Nat.le_refl u, hsucc⟩
  · have h0 : u ≠ 0 := by omega
    have hlog : 52 ≤ u.log2 := (Nat.le_log2 h0).2 (by omega)
    obtain ⟨k, hk⟩ := Nat.exists_eq_add_of_le hlog
    have hlow : 2 ^ 52 ≤ u / 2 ^ k := by
      rw [Nat.le_div_iff_mul_le (Nat.two_pow_pos k), ← Nat.pow_add, ← hk]
      exact Nat.log2_self_le h0
    have hhigh : u / 2 ^ k < 2 ^ 53 := by
      rw [Nat.div_lt_iff_lt_mul (Nat.two_pow_pos k), ← Nat.pow_add, show 53 + k = u.log2 + 1 by omega]
      exact Nat.lt_log2_self
    obtain ⟨r, hr⟩ := Nat.exists_eq_add_of_le hlow
    have hrank : k * 2 ^ 52 + u / 2 ^ k = (k + 1) * 2 ^ 52 + r := by omega
    rw [hk, Nat.add_sub_cancel_left, hrank, units_block_succ k r (by omega), units_block k r (by omega), ← hr]
    exact ⟨Nat.div_mul_le_self u (2 ^ k), Nat.lt_mul_of_div_lt (Nat.lt_succ_self _) (Nat.two_pow_pos k)⟩

theorem le_floorRank_iff {rank u : Nat} : rank ≤ floorRank u ↔ units rank ≤ u := by
  obtain ⟨hle, hlt⟩ := units_floorRank u
  refine ⟨fun h => (strictMono_units.monotone h).trans hle, fun h => ?_⟩
  have := strictMono_units.lt_iff_lt.1 (h.trans_lt hlt)
  omega

/-- From `2 ^ n` units on the rank is at least that of the block `n - 51`. -/
theorem le_floorRank {n u : Nat} (hn : 51 ≤ n) (h : 2 ^ n ≤ u) :
    (n - 51) * 2 ^ 52 ≤ floorRank u := by
  have h0 : u ≠ 0 := by
    have := Nat.two_pow_pos n
    omega
  have hlog : n ≤ u.log2 := (Nat.le_log2 h0).2 h
  rw [floorRank_eq]
  by_cases hbig : 52 ≤ u.log2
  · have hquot : 2 ^ 52 ≤ u / 2 ^ (u.log2 - 52) := by
      rw [Nat.le_div_iff_mul_le (Nat.two_pow_pos _), ← Nat.pow_add,
        show 52 + (u.log2 - 52) = u.log2 by omega]
      exact Nat.log2_self_le h0
    have hmul : (n - 51) * 2 ^ 52 ≤ (u.log2 - 52 + 1) * 2 ^ 52 :=
      Nat.mul_le_mul_right _ (by omega)
    omega
  · have hn51 : n - 51 = 0 := by omega
    simp [hn51]

/-- Below `2 ^ n` units the rank is below that of the block `n - 50`. -/
theorem floorRank_lt {n u : Nat} (hn : 51 ≤ n) (h : u < 2 ^ n) :
    floorRank u < (n - 50) * 2 ^ 52 := by
  rw [floorRank_eq]
  by_cases hbig : 52 ≤ u.log2
  · have h0 : u ≠ 0 := by
      rintro rfl
      simp at hbig
    have hlog : u.log2 < n := (Nat.log2_lt h0).2 h
    have hquot : u / 2 ^ (u.log2 - 52) < 2 ^ 53 := by
      rw [Nat.div_lt_iff_lt_mul (Nat.two_pow_pos _), ← Nat.pow_add,
        show 53 + (u.log2 - 52) = u.log2 + 1 by omega]
      exact Nat.lt_log2_self
    have hmul : (u.log2 - 50) * 2 ^ 52 ≤ (n - 51) * 2 ^ 52 := Nat.mul_le_mul_right _ (by omega)
    omega
  · have hsmall : u < 2 ^ 52 := by
      by_contra hle
      have h0 : u ≠ 0 := by omega
      exact hbig ((Nat.le_log2 h0).2 (by omega))
    have hzero : u.log2 - 52 = 0 := by omega
    have hmul : 1 * 2 ^ 52 ≤ (n - 50) * 2 ^ 52 := Nat.mul_le_mul_right _ (by omega)
    rw [hzero, Nat.pow_zero, Nat.div_one]
    omega

theorem nearestRank_le_floorRank (num den : Nat) :
    nearestRank num den ≤ floorRank (num * unitsPerOne / den) + 1 := by
  unfold nearestRank
  dsimp only
  split_ifs <;> omega

theorem floorRank_le_nearestRank (num den : Nat) :
    floorRank (num * unitsPerOne / den) ≤ nearestRank num den := by
  unfold nearestRank
  dsimp only
  split_ifs <;> omega

section

variable {num den rank : Nat} (hd : 0 < den)
include hd

theorem le_nearestRank (h : units rank * den ≤ num * unitsPerOne) : rank ≤ nearestRank num den :=
  (le_floorRank_iff.2 ((Nat.le_div_iff_mul_le hd).2 h)).trans (floorRank_le_nearestRank num den)

/-- A rank is the greatest that is near if the fraction is nearer to it than to the next. -/
theorem nearestRank_le (h : 2 * num * unitsPerOne < (units rank + units (rank + 1)) * den) :
    nearestRank num den ≤ rank := by
  have hlow : floorRank (num * unitsPerOne / den) ≤ rank := by
    by_contra hlt
    have hunits := (Nat.le_div_iff_mul_le hd).1 (le_floorRank_iff.1 (Nat.lt_of_not_le hlt))
    have hmono := Nat.mul_le_mul_right den (units_lt_succ rank).le
    nlinarith
  rcases hlow.lt_or_eq with hlt | rfl
  · exact (nearestRank_le_floorRank num den).trans hlt
  · rw [nearestRank, if_pos h]

/-- The fraction is at most half way from its rank to the next. -/
theorem two_mul_le_of_nearestRank_le (h : nearestRank num den ≤ rank) :
    2 * num * unitsPerOne ≤ (units rank + units (rank + 1)) * den := by
  by_contra hlt
  have hmiddle := Nat.lt_of_not_le hlt
  have hunits : units rank * den ≤ num * unitsPerOne := by
    have hmono := Nat.mul_le_mul_right den (units_lt_succ rank).le
    nlinarith
  have hlow := le_floorRank_iff.2 ((Nat.le_div_iff_mul_le hd).2 hunits)
  have hnearest := floorRank_le_nearestRank num den
  have hrank : floorRank (num * unitsPerOne / den) = rank := by omega
  rw [nearestRank, hrank, if_neg (by omega), if_pos hmiddle] at h
  omega

/-- From one unit in 2^52 on, rounding up adds at most one part in 2^53. -/
theorem units_nearestRank_le (h : 2 ^ 52 * den ≤ num * unitsPerOne) :
    (2 ^ 53 + 1) * (units (nearestRank num den) * den) ≤ (2 ^ 53 + 2) * (num * unitsPerOne) := by
  have hfloor := (Nat.le_div_iff_mul_le hd).1 (units_floorRank (num * unitsPerOne / den)).1
  have hlow : 2 ^ 52 ≤ floorRank (num * unitsPerOne / den) := by
    have hunits : units (2 ^ 52) = 2 ^ 52 := units_block 0 0 (by norm_num)
    rw [le_floorRank_iff, hunits]
    exact (Nat.le_div_iff_mul_le hd).2 h
  have hnext := Nat.mul_le_mul_right den (units_succ_le hlow)
  unfold nearestRank
  dsimp only
  generalize floorRank (num * unitsPerOne / den) = low at *
  split_ifs with hdown hup
  · nlinarith
  · nlinarith
  · nlinarith
  · nlinarith

end

theorem nearestRank_mul_right (num den : Nat) {k : Nat} (hk : 0 < k) :
    nearestRank (num * k) (den * k) = nearestRank num den := by
  have hdiv : num * k * unitsPerOne / (den * k) = num * unitsPerOne / den := by
    rw [Nat.mul_right_comm, Nat.mul_div_mul_right _ _ hk]
  unfold nearestRank
  rw [hdiv]
  generalize floorRank (num * unitsPerOne / den) = low
  have htwice : 2 * (num * k) * unitsPerOne = 2 * num * unitsPerOne * k := by ring
  have hmiddle : (units low + units (low + 1)) * (den * k) =
      (units low + units (low + 1)) * den * k := by ring
  simp only [htwice, hmiddle, Nat.mul_lt_mul_right hk]

/-- The rank depends on the value of the fraction alone. -/
theorem nearestRank_congr {num den num' den' : Nat} (hd : 0 < den) (hd' : 0 < den')
    (h : num * den' = num' * den) : nearestRank num den = nearestRank num' den' := by
  rw [← nearestRank_mul_right num den hd', h, Nat.mul_comm den den',
    nearestRank_mul_right num' den' hd]

theorem nearestRank_zero {den : Nat} (hd : 0 < den) : nearestRank 0 den = 0 := by
  have hunits : 0 < units 0 + units (0 + 1) := by decide +kernel
  have hfloor : floorRank 0 = 0 := by decide +kernel
  simp only [nearestRank, Nat.zero_mul, Nat.zero_div, Nat.mul_zero, hfloor]
  rw [if_pos (Nat.mul_pos hunits hd)]

/-- A magnitude is the one nearest to itself. -/
theorem nearestRank_units (rank : Nat) : nearestRank (units rank) unitsPerOne = rank := by
  have hlt : 2 * units rank * unitsPerOne < (units rank + units (rank + 1)) * unitsPerOne :=
    Nat.mul_lt_mul_of_pos_right (by have := units_lt_succ rank; omega) unitsPerOne_pos
  unfold nearestRank
  rw [Nat.mul_div_cancel _ unitsPerOne_pos, floorRank_units]
  simp only [if_pos hlt]

/-- Whatever is below half a unit is nearest to nothing. -/
theorem nearestRank_of_small {num den : Nat} (h : 2 * num * unitsPerOne < den) :
    nearestRank num den = 0 := by
  have hdiv : num * unitsPerOne / den = 0 := Nat.div_eq_of_lt (by nlinarith)
  have hfloor : floorRank 0 = 0 := by decide +kernel
  have hone : units 0 + units (0 + 1) = 1 := by decide +kernel
  simp only [nearestRank, hdiv, hfloor, hone, Nat.one_mul, if_pos h]

/-- What is at least `2 ^ 1024` has no finite magnitude near it. -/
theorem finiteCount_le_nearestRank {num den : Nat} (hd : 0 < den) (h : 2 ^ 1024 * den ≤ num) :
    finiteCount ≤ nearestRank num den := by
  have hquot : 2 ^ 2098 ≤ num * unitsPerOne / den := by
    rw [Nat.le_div_iff_mul_le hd]
    calc 2 ^ 2098 * den = 2 ^ 1024 * den * unitsPerOne := by
          rw [unitsPerOne_eq, show (2098 : Nat) = 1024 + 1074 by norm_num, Nat.pow_add]
          ring
      _ ≤ num * unitsPerOne := Nat.mul_le_mul_right _ h
  calc finiteCount = (2098 - 51) * 2 ^ 52 := rfl
    _ ≤ floorRank (num * unitsPerOne / den) := le_floorRank (by omega) hquot
    _ ≤ nearestRank num den := floorRank_le_nearestRank num den

/-- Every integer of 64 bits has a finite magnitude near it. -/
theorem nearestRank_lt_finiteCount {n : Nat} (h : n < 2 ^ 64) : nearestRank n 1 < finiteCount := by
  have hunits : n * unitsPerOne / 1 < 2 ^ 1138 := by
    calc n * unitsPerOne / 1 = n * unitsPerOne := Nat.div_one _
      _ < 2 ^ 64 * unitsPerOne := Nat.mul_lt_mul_of_pos_right h unitsPerOne_pos
      _ = 2 ^ 1138 := by rw [unitsPerOne_eq, ← Nat.pow_add]
  have hfloor := floorRank_lt (by omega) hunits
  have hnearest := nearestRank_le_floorRank n 1
  have hcount : (1138 - 50) * 2 ^ 52 + 1 ≤ finiteCount := by decide +kernel
  omega

theorem ofRank_of_le {negative : Bool} {rank : Nat} (h : finiteCount ≤ rank) :
    ofRank negative rank = .infinite negative := dif_neg (by omega)

theorem ofRank_of_lt {negative : Bool} {rank : Nat} (h : rank < finiteCount) :
    ofRank negative rank = .finite negative ⟨rank, h⟩ := dif_pos h

theorem finite_ofInt {i : Int} (h : i.natAbs < 2 ^ 64) :
    ∃ negative rank, ofInt i = .finite negative rank :=
  ⟨_, _, ofRank_of_lt (nearestRank_lt_finiteCount h)⟩

end ModelBinding.Binary64
