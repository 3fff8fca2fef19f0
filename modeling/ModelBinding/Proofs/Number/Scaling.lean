import ModelBinding.Number.BestEffort
import ModelBinding.Proofs.Number.Parts

/-!
# Numerals read in floating point

A numeral of few digits and a small power of ten is scaled without an error, so it is taken for the
number that is nearest to it. Any other may be taken for a neighbour, but each factor is rounded up by
at most one part in 2^53, so a numeral that stands well inside the finite range is not taken for more
than there is.
-/
namespace ModelBinding

namespace Binary64

theorem nearestRank_eq {num den rank : Nat} (hd : 0 < den) (h : num * unitsPerOne = units rank * den) :
    nearestRank num den = rank := by
  rw [nearestRank_congr hd unitsPerOne_pos h, nearestRank_units]

/-! ## Without an error -/

/-- An integer is a magnitude if it is of at most 53 bits, a power of two apart. -/
theorem units_nearestRank_mul {m : Nat} (h : m < 2 ^ 53) (k : Nat) :
    units (nearestRank (m * 2 ^ k) 1) = m * 2 ^ k * unitsPerOne := by
  obtain ⟨rank, hrank⟩ := exists_units_eq h (k + 1074)
  have hunits : m * 2 ^ k * unitsPerOne = units rank := by
    rw [hrank, unitsPerOne_eq, Nat.pow_add, Nat.mul_assoc]
  rw [nearestRank_eq Nat.one_pos (hunits.trans (Nat.mul_one _).symm), hunits]

theorem units_nearestRank {n : Nat} (h : n < 2 ^ 53) : units (nearestRank n 1) = n * unitsPerOne := by
  have hunits := units_nearestRank_mul h 0
  rwa [Nat.pow_zero, Nat.mul_one] at hunits

theorem units_tenRank {n : Nat} (h : n ≤ 22) : units (tenRank n) = 10 ^ n * unitsPerOne := by
  have hfive : 5 ^ n < 2 ^ 53 := (Nat.pow_le_pow_right (by omega) h).trans_lt (by norm_num)
  rw [tenRank, Nat.pow_eq, ten_pow]
  exact units_nearestRank_mul hfive n

/-- Exact factors leave one rounding, that to the nearest. -/
theorem scale_eq_decimalRank {n : Nat} {exponent : Int} (hn : n < 2 ^ 53) (hle : -22 ≤ exponent)
    (hge : exponent ≤ 22) : scale (nearestRank n 1) exponent = decimalRank n exponent := by
  have hone := unitsPerOne_pos
  unfold scale decimalRank
  rw [if_neg (by unfold maxPower; omega)]
  split_ifs with hsign
  · have hneg : (-exponent).toNat = 0 := by omega
    rw [mulRank, units_nearestRank hn, units_tenRank (by omega), hneg, Nat.pow_zero]
    apply nearestRank_congr (Nat.mul_pos hone hone) Nat.one_pos
    ring
  · have hpos : exponent.toNat = 0 := by omega
    have hcount : ((-exponent).toNat - 1) / maxPower = 0 := by
      unfold maxPower
      omega
    have hpower := units_tenRank (n := (-exponent).toNat) (by omega)
    simp only [hcount, shrink, Nat.zero_mul, Nat.sub_zero]
    rw [divRank, units_nearestRank hn, hpower, hpos, Nat.pow_zero, Nat.mul_one]
    exact nearestRank_mul_right n _ hone

/-! ## Within the range -/

theorem nearestRank_le_of_le {num den rank : Nat} (hd : 0 < den) (h : num * unitsPerOne ≤ units rank * den) :
    nearestRank num den ≤ rank := by
  apply nearestRank_le hd
  have hnext := Nat.mul_lt_mul_of_pos_right (units_lt_succ rank) hd
  nlinarith

theorem units_one_le_tenRank (n : Nat) : unitsPerOne ≤ units (tenRank n) := by
  obtain ⟨one, hone⟩ := exists_units_eq (m := 1) (by norm_num) 1074
  rw [Nat.one_mul, ← unitsPerOne_eq] at hone
  rw [← hone]
  apply strictMono_units.monotone
  apply le_nearestRank Nat.one_pos
  rw [hone, Nat.mul_one, Nat.pow_eq]
  exact Nat.le_mul_of_pos_left _ (Nat.pow_pos (by omega))

/-- A division by a power of ten does not make a magnitude greater. -/
theorem divRank_tenRank_le (rank n : Nat) : divRank rank (tenRank n) ≤ rank := by
  have hten := units_one_le_tenRank n
  exact nearestRank_le_of_le (unitsPerOne_pos.trans_le hten) (Nat.mul_le_mul_left _ hten)

theorem shrink_le (count rank : Nat) : shrink count rank ≤ rank := by
  induction count generalizing rank with
  | zero => exact Nat.le_refl rank
  | succ count ih =>
    unfold shrink
    split_ifs with hzero
    · exact Nat.zero_le rank
    · exact (ih _).trans (divRank_tenRank_le rank maxPower)

/-- From the three greatest magnitudes, which are left out, two roundings may lead beyond the range. -/
def safeRank : Nat := finiteCount - 4

/-- The product of two factors that were each rounded stays in the range if the exact product is well inside. -/
theorem mulRank_lt {n exponent : Nat} (hn : 0 < n)
    (h : 2 * (n * 10 ^ exponent) * unitsPerOne ≤ units safeRank + units (safeRank + 1)) :
    mulRank (nearestRank n 1) (tenRank exponent) < finiteCount := by
  have hone := unitsPerOne_pos
  have hbits : 2 ^ 52 * 1 ≤ unitsPerOne := by
    rw [unitsPerOne_eq, Nat.mul_one]
    exact Nat.pow_le_pow_right (by omega) (by omega)
  have hten : 0 < 10 ^ exponent := Nat.pow_pos (by omega)
  have hleft := units_nearestRank_le Nat.one_pos (hbits.trans (Nat.le_mul_of_pos_left unitsPerOne hn))
  have hright : (2 ^ 53 + 1) * (units (tenRank exponent) * 1) ≤
      (2 ^ 53 + 2) * (10 ^ exponent * unitsPerOne) :=
    units_nearestRank_le Nat.one_pos (hbits.trans (Nat.le_mul_of_pos_left unitsPerOne hten))
  have hmargin : (2 ^ 53 + 2) ^ 2 * (units safeRank + units (safeRank + 1)) <
      (2 ^ 53 + 1) ^ 2 * (units (finiteCount - 1) + units (finiteCount - 1 + 1)) := by decide +kernel
  rw [Nat.mul_one] at hleft hright
  have hproduct : (2 ^ 53 + 1) ^ 2 * (2 * (units (nearestRank n 1) * units (tenRank exponent)) * unitsPerOne) <
      (2 ^ 53 + 1) ^ 2 * ((units (finiteCount - 1) + units (finiteCount - 1 + 1)) * (unitsPerOne * unitsPerOne)) := by
    calc (2 ^ 53 + 1) ^ 2 * (2 * (units (nearestRank n 1) * units (tenRank exponent)) * unitsPerOne)
        = 2 * ((2 ^ 53 + 1) * units (nearestRank n 1) * ((2 ^ 53 + 1) * units (tenRank exponent))) *
          unitsPerOne := by ring
      _ ≤ 2 * ((2 ^ 53 + 2) * (n * unitsPerOne) * ((2 ^ 53 + 2) * (10 ^ exponent * unitsPerOne))) *
          unitsPerOne := Nat.mul_le_mul_right _ (Nat.mul_le_mul_left _ (Nat.mul_le_mul hleft hright))
      _ = (2 ^ 53 + 2) ^ 2 * (2 * (n * 10 ^ exponent) * unitsPerOne) * (unitsPerOne * unitsPerOne) := by ring
      _ ≤ (2 ^ 53 + 2) ^ 2 * (units safeRank + units (safeRank + 1)) * (unitsPerOne * unitsPerOne) :=
          Nat.mul_le_mul_right _ (Nat.mul_le_mul_left _ h)
      _ < (2 ^ 53 + 1) ^ 2 * (units (finiteCount - 1) + units (finiteCount - 1 + 1)) *
          (unitsPerOne * unitsPerOne) := Nat.mul_lt_mul_of_pos_right hmargin (Nat.mul_pos hone hone)
      _ = _ := Nat.mul_assoc ..
  have hle := nearestRank_le (Nat.mul_pos hone hone) (Nat.lt_of_mul_lt_mul_left hproduct)
  have hcount : 0 < finiteCount := by decide
  exact Nat.lt_of_le_of_lt hle (Nat.sub_lt hcount Nat.one_pos)

/-- What is not greater than a fraction well inside the range is scaled to a finite magnitude. -/
theorem scale_lt {n num den : Nat} {exponent : Int} (hn : n < 2 ^ 64) (hd : 0 < den)
    (hle : 0 ≤ exponent → n * 10 ^ exponent.toNat * den ≤ num) (hrank : nearestRank num den ≤ safeRank) :
    scale (nearestRank n 1) exponent < finiteCount := by
  have hcount : 0 < finiteCount := by decide
  have hinteger := nearestRank_lt_finiteCount hn
  unfold scale
  split_ifs with hlarge hzero hsign
  · exact hcount
  · have hpos : 0 < n := by
      by_contra h0
      rw [Nat.eq_zero_of_not_pos h0, nearestRank_zero Nat.one_pos] at hzero
      exact hzero rfl
    have hfar : 2 ^ 1024 * den ≤ num := by
      calc 2 ^ 1024 * den ≤ 10 ^ 309 * den := Nat.mul_le_mul_right _ (by decide +kernel)
        _ ≤ n * 10 ^ exponent.toNat * den := Nat.mul_le_mul_right _ <|
            (Nat.pow_le_pow_right (by omega) (by unfold maxPower at hlarge; omega)).trans
              (Nat.le_mul_of_pos_left _ hpos)
        _ ≤ num := hle (by unfold maxPower at hlarge; omega)
    have hbeyond := finiteCount_le_nearestRank hd hfar
    have hsafe : safeRank < finiteCount := by decide
    omega
  · rcases Nat.eq_zero_or_pos n with rfl | hpos
    · have hunits : units 0 = 0 := units_of_lt (by norm_num)
      have hone := unitsPerOne_pos
      rw [nearestRank_zero Nat.one_pos, mulRank, hunits, Nat.zero_mul, nearestRank_zero (Nat.mul_pos hone hone)]
      exact hcount
    · apply mulRank_lt hpos
      have hhalf := two_mul_le_of_nearestRank_le hd hrank
      have hscaled := Nat.mul_le_mul_left (2 * unitsPerOne) (hle hsign)
      apply Nat.le_of_mul_le_mul_right _ hd
      calc 2 * (n * 10 ^ exponent.toNat) * unitsPerOne * den
          = 2 * unitsPerOne * (n * 10 ^ exponent.toNat * den) := by ring
        _ ≤ 2 * unitsPerOne * num := hscaled
        _ = 2 * num * unitsPerOne := by ring
        _ ≤ (units safeRank + units (safeRank + 1)) * den := hhalf
  · exact ((divRank_tenRank_le _ _).trans (shrink_le _ _)).trans_lt hinteger

end Binary64

/-! ## Numerals -/

namespace Numeral

theorem digitsValue_cons (c : Char) (rest : List Char) :
    digitsValue (c :: rest) = (c.toNat - '0'.toNat) * 10 ^ rest.length + digitsValue rest := by
  have hdigit : digitsValue [c] = c.toNat - '0'.toNat := by simp [digitsValue]
  rw [← hdigit]
  exact digitsValue_append [c] rest

/-- What is gathered are the digits in front, and it fits. -/
theorem exists_gather {n : Nat} (hn : n < 2 ^ 64) (digits : List Char) : ∃ taken,
    digits = taken ++ (gather n digits).2 ∧
      (gather n digits).1 = n * 10 ^ taken.length + digitsValue taken ∧ (gather n digits).1 < 2 ^ 64 := by
  induction digits generalizing n with
  | nil => exact ⟨[], rfl, (Nat.mul_one n).symm, hn⟩
  | cons c rest ih =>
    unfold gather
    dsimp only
    split_ifs with hfits
    · obtain ⟨taken, hrest, hvalue, hlt⟩ := ih hfits
      refine ⟨c :: taken, by rw [List.cons_append, ← hrest], ?_, hlt⟩
      rw [hvalue, digitsValue_cons, List.length_cons]
      ring
    · exact ⟨[], rfl, (Nat.mul_one n).symm, hn⟩

/-- Digits of a number that fits are all gathered. -/
theorem gather_eq {n : Nat} {digits : List Char} (h : n * 10 ^ digits.length + digitsValue digits < 2 ^ 64) :
    gather n digits = (n * 10 ^ digits.length + digitsValue digits, []) := by
  induction digits generalizing n with
  | nil => rw [gather, List.length_nil, Nat.pow_zero, Nat.mul_one]; rfl
  | cons c rest ih =>
    have hvalue : n * 10 ^ (c :: rest).length + digitsValue (c :: rest) =
        (10 * n + (c.toNat - '0'.toNat)) * 10 ^ rest.length + digitsValue rest := by
      rw [digitsValue_cons, List.length_cons]
      ring
    have hfits : 10 * n + (c.toNat - '0'.toNat) < 0x10000000000000000 := by
      have := Nat.le_mul_of_pos_right (10 * n + (c.toNat - '0'.toNat)) (Nat.pow_pos (n := rest.length) (by omega : 0 < 10))
      omega
    rw [hvalue] at h ⊢
    rw [gather, if_pos hfits, ih h]

theorem gather_whole {digits : List Char} (h : digitsValue digits < 2 ^ 64) :
    gather 0 digits = (digitsValue digits, []) := by
  have hgather := @gather_eq 0 digits (by omega)
  rwa [Nat.zero_mul, Nat.zero_add] at hgather

/-- The coefficient of all digits of a numeral, and its power of ten. -/
theorem toBinary64_eq_ofRank (n : Numeral) : n.toBinary64 = .ofRank n.negative
    (Binary64.decimalRank (digitsValue (n.whole ++ n.fraction)) (n.exponent - n.fraction.length)) :=
  Binary64.ofDecimal_eq_ofRank _ _ _

/-- Numerals of few digits with small powers of ten are read exactly as those that are rounded to nearest. -/
theorem bestEffort_eq_toBinary64 {n : Numeral} (hdigits : digitsValue (n.whole ++ n.fraction) < 2 ^ 53)
    (hle : -22 ≤ n.exponent - n.fraction.length) (hge : n.exponent - n.fraction.length ≤ 22) :
    n.bestEffort = n.toBinary64 := by
  have hvalue := digitsValue_append n.whole n.fraction
  have hwhole : digitsValue n.whole ≤ digitsValue n.whole * 10 ^ n.fraction.length :=
    Nat.le_mul_of_pos_right _ (Nat.pow_pos (by omega))
  have hsignificand : n.significand =
      (digitsValue (n.whole ++ n.fraction), n.exponent - n.fraction.length) := by
    rw [significand, gather_whole (by omega), hvalue]
    dsimp only
    rw [gather_eq (by omega)]
    simp
  rw [bestEffort, bestRank, hsignificand, toBinary64_eq_ofRank]
  dsimp only
  rw [Binary64.scale_eq_decimalRank hdigits hle hge]

/-- A numeral whose number is well inside the range is read as a finite one. -/
theorem bestRank_lt {n : Numeral} (hwhole : digitsValue n.whole < 2 ^ 64)
    (hrank : Binary64.decimalRank (digitsValue (n.whole ++ n.fraction)) (n.exponent - n.fraction.length) ≤
      Binary64.safeRank) : n.bestRank < Binary64.finiteCount := by
  obtain ⟨taken, hfraction, hvalue, hlt⟩ := exists_gather hwhole n.fraction
  set rest := (gather (digitsValue n.whole) n.fraction).2 with hrest
  have hlength : n.fraction.length = taken.length + rest.length := by
    rw [hfraction, List.length_append]
  have hsignificand : n.significand =
      ((gather (digitsValue n.whole) n.fraction).1, n.exponent - taken.length) := by
    rw [significand, gather_whole hwhole]
    dsimp only
    rw [← hrest, hlength]
    simp
  -- The digits that are ignored only make the number greater.
  have hdigits : (gather (digitsValue n.whole) n.fraction).1 * 10 ^ rest.length ≤
      digitsValue (n.whole ++ n.fraction) := by
    rw [hvalue, hfraction, ← List.append_assoc, digitsValue_append (n.whole ++ taken),
      digitsValue_append n.whole taken]
    exact Nat.le_add_right _ _
  rw [bestRank, hsignificand]
  refine Binary64.scale_lt hlt (Nat.pow_pos (by omega)) (fun hsign => ?_) hrank
  have hpowers : (n.exponent - taken.length).toNat + (-(n.exponent - n.fraction.length)).toNat =
      rest.length + (n.exponent - n.fraction.length).toNat := by omega
  calc _ * 10 ^ (n.exponent - taken.length).toNat * 10 ^ (-(n.exponent - n.fraction.length)).toNat
      = (gather (digitsValue n.whole) n.fraction).1 * 10 ^ rest.length *
          10 ^ (n.exponent - n.fraction.length).toNat := by
        rw [Nat.mul_assoc, ← Nat.pow_add, hpowers, Nat.pow_add, Nat.mul_assoc]
    _ ≤ digitsValue (n.whole ++ n.fraction) * 10 ^ (n.exponent - n.fraction.length).toNat :=
        Nat.mul_le_mul_right _ hdigits

end Numeral

end ModelBinding
