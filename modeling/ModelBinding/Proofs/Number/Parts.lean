import ModelBinding.Number.Numeral
import ModelBinding.Number.Layout
import ModelBinding.Proofs.Number.Decimal

/-!
# The parts of a written number

A layout writes a decimal as digits, a fraction and a power of ten. The parts say the same number
as the decimal does, whichever form the layout takes, and no digit goes before them that a reader
would have to drop.
-/
namespace ModelBinding

/-! ## Digits -/

def AllDigits (digits : List Char) : Prop := ∀ c ∈ digits, c.isDigit = true

theorem AllDigits.append {a b : List Char} (ha : AllDigits a) (hb : AllDigits b) :
    AllDigits (a ++ b) := fun c hc => (List.mem_append.1 hc).elim (ha c) (hb c)

theorem AllDigits.subset {a b : List Char} (hb : AllDigits b) (h : a ⊆ b) : AllDigits a :=
  fun c hc => hb c (h hc)

theorem allDigits_zeros (n : Nat) : AllDigits (List.replicate n '0') := by
  intro c hc
  rw [List.eq_of_mem_replicate hc]
  rfl

theorem allDigits_toDigits (n : Nat) : AllDigits (Nat.toDigits 10 n) :=
  fun _ hc => Nat.isDigit_of_mem_toDigits (by omega) (by omega) hc

theorem digitsValue_append (a b : List Char) :
    digitsValue (a ++ b) = digitsValue a * 10 ^ b.length + digitsValue b := by
  have h : digitsValue (a ++ b) = Nat.ofDigitChars 10 b (digitsValue a) :=
    Nat.ofDigitChars_append 0
  rw [h, Nat.ofDigitChars_eq_ofDigitChars_zero, Nat.mul_comm]
  rfl

theorem digitsValue_toDigits (n : Nat) : digitsValue (Nat.toDigits 10 n) = n :=
  Nat.ofDigitChars_ten_toDigits

theorem digitsValue_zeros (n : Nat) : digitsValue (List.replicate n '0') = 0 :=
  Nat.ofDigitChars_replicate_zero

theorem digitsValue_append_zeros (a : List Char) (n : Nat) :
    digitsValue (a ++ List.replicate n '0') = digitsValue a * 10 ^ n := by
  rw [digitsValue_append, digitsValue_zeros, List.length_replicate, Nat.add_zero]

theorem digitsValue_zeros_append (a : List Char) (n : Nat) :
    digitsValue (List.replicate n '0' ++ a) = digitsValue a := by
  rw [digitsValue_append, digitsValue_zeros, Nat.zero_mul, Nat.zero_add]

theorem head?_toDigits_ne_zero {n : Nat} (h : n ≠ 0) : (Nat.toDigits 10 n).head? ≠ some '0' := by
  induction n using Nat.strong_induction_on with
  | _ n ih =>
    by_cases hlt : n < 10
    · rw [Nat.toDigits_of_lt_base hlt]
      interval_cases n <;> first | exact absurd rfl h | decide
    · rw [Nat.toDigits_of_base_le (by omega) (by omega), List.head?_append_of_ne_nil _
        Nat.toDigits_ne_nil]
      exact ih (n / 10) (by omega) (by omega)

theorem toList_toString_ofNat (n : Nat) : (toString n).toList = Nat.toDigits 10 n :=
  Nat.toList_repr

theorem toList_toString_int (i : Int) : (toString i).toList =
    if i < 0 then '-' :: Nat.toDigits 10 i.natAbs else Nat.toDigits 10 i.natAbs := by
  rw [Int.toString_eq_repr, Int.repr_eq_if]
  by_cases h : 0 ≤ i
  · have hnat : i.toNat = i.natAbs := by omega
    rw [if_pos h, if_neg (by omega), Nat.toList_repr, hnat]
  · have hnat : (-i).toNat = i.natAbs := by omega
    rw [if_neg h, if_pos (by omega), String.toList_append, Nat.toList_repr, hnat]
    rfl

namespace NumberLayout

theorem significant_zero : significant 0 = ['0'] := by decide

/-- The significant digits are what is left without the zeros at the end. -/
theorem toDigits_eq_significant_append {c : Nat} (hc : c ≠ 0) :
    ∃ k, Nat.toDigits 10 c = significant c ++ List.replicate k '0' := by
  let zeros := (Nat.toDigits 10 c).reverse.takeWhile (· == '0')
  have hzeros : zeros = List.replicate zeros.length '0' := by
    rw [List.eq_replicate_iff]
    refine ⟨rfl, fun x hx => ?_⟩
    simpa using List.all_eq_true.1 List.all_takeWhile x hx
  have hsplit : Nat.toDigits 10 c =
      ((Nat.toDigits 10 c).reverse.dropWhile (· == '0')).reverse ++ List.replicate zeros.length '0' := by
    rw [← List.reverse_replicate, ← hzeros, ← List.reverse_append, List.takeWhile_append_dropWhile,
      List.reverse_reverse]
  have hne : ((Nat.toDigits 10 c).reverse.dropWhile (· == '0')).reverse ≠ [] := by
    intro h
    rw [h, List.nil_append] at hsplit
    have hvalue := digitsValue_toDigits c
    rw [hsplit, digitsValue_zeros] at hvalue
    exact hc hvalue.symm
  refine ⟨zeros.length, ?_⟩
  unfold significant
  split
  · contradiction
  · exact hsplit

theorem significant_ne_nil (c : Nat) : significant c ≠ [] := by
  unfold significant
  split <;> simp_all

theorem allDigits_significant (c : Nat) : AllDigits (significant c) := by
  by_cases hc : c = 0
  · rw [hc, significant_zero]
    simp [AllDigits]
  · obtain ⟨k, hk⟩ := toDigits_eq_significant_append hc
    exact (allDigits_toDigits c).subset (hk ▸ List.subset_append_left _ _)

theorem head?_significant_ne_zero {c : Nat} (hc : c ≠ 0) : (significant c).head? ≠ some '0' := by
  obtain ⟨k, hk⟩ := toDigits_eq_significant_append hc
  have h := head?_toDigits_ne_zero hc
  rwa [hk, List.head?_append_of_ne_nil _ (significant_ne_nil c)] at h

/-- Where the decimal point of the significant digits stands: after the first of them is the place
`leading`. -/
def leading (d : Decimal) : Int :=
  if d.coefficient = 0 then 0 else d.exponent + (Nat.toDigits 10 d.coefficient).length - 1

/-- A decimal denotes the number of its significant digits at their place. -/
theorem ofDecimal_significant (negative : Bool) (d : Decimal) :
    Binary64.ofDecimal negative (digitsValue (significant d.coefficient))
        (leading d + 1 - (significant d.coefficient).length) =
      Binary64.ofDecimal negative d.coefficient d.exponent := by
  by_cases hc : d.coefficient = 0
  · have hvalue : digitsValue (significant 0) = 0 := by
      rw [significant_zero]
      rfl
    rw [hc, hvalue, Binary64.ofDecimal_zero, Binary64.ofDecimal_zero]
  · obtain ⟨k, hk⟩ := toDigits_eq_significant_append hc
    have hvalue : d.coefficient = digitsValue (significant d.coefficient) * 10 ^ k := by
      rw [← digitsValue_append_zeros, ← hk, digitsValue_toDigits]
    have hplace : leading d + 1 - (significant d.coefficient).length = d.exponent + k := by
      rw [leading, if_neg hc, hk, List.length_append, List.length_replicate]
      push_cast
      ring
    rw [hplace, ← Binary64.ofDecimal_mul_pow, ← hvalue]

end NumberLayout

/-! ## Parts -/

/-- A floating point numeral by its parts; without a power of ten no exponent is written. -/
structure NumeralParts where
  whole : List Char
  fraction : List Char
  power : Option Int

namespace NumeralParts

def fractionText : List Char → List Char
  | [] => []
  | digits => '.' :: digits

theorem fractionText_of_ne_nil {digits : List Char} (h : digits ≠ []) :
    fractionText digits = '.' :: digits := by
  cases digits with
  | nil => exact absurd rfl h
  | cons c rest => rfl

/-- A fraction begins with its point, and without one there is only what follows. -/
theorem head?_fractionText {p : Char → Prop} {digits rest : List Char} (hpoint : p '.')
    (hrest : ∀ c ∈ rest.head?, p c) : ∀ c ∈ (fractionText digits ++ rest).head?, p c := by
  cases digits with
  | nil => exact hrest
  | cons d digits =>
    intro c hc
    cases hc
    exact hpoint

def text (layout : NumberLayout) (parts : NumeralParts) : List Char :=
  parts.whole ++ (fractionText parts.fraction ++ (parts.power.map layout.exponentPart).getD [])

/-- The numeral that the parts are of. -/
def numeral (negative : Bool) (parts : NumeralParts) : Numeral :=
  ⟨negative, parts.whole, parts.fraction, parts.power.getD 0⟩

/-- The number that the parts say. -/
def value (negative : Bool) (parts : NumeralParts) : Binary64 :=
  .ofDecimal negative (digitsValue (parts.whole ++ parts.fraction))
    (parts.power.getD 0 - parts.fraction.length)

/-- Digits without a zero at the front, and a mark that tells them from an integer. -/
structure WellFormed (parts : NumeralParts) : Prop where
  whole_ne_nil : parts.whole ≠ []
  whole_digits : AllDigits parts.whole
  leading_zero : parts.whole.head? = some '0' → parts.whole = ['0']
  fraction_digits : AllDigits parts.fraction
  marked : parts.fraction = [] → parts.power ≠ none

end NumeralParts

namespace NumberLayout

/-- The parts of digits that begin at the decimal place `leading`, without a power of ten. -/
def positionalParts (digits : List Char) (leading : Int) : NumeralParts :=
  if leading < 0 then ⟨['0'], List.replicate (-leading - 1).toNat '0' ++ digits, none⟩
  else if digits.length ≤ leading.toNat + 1 then
    ⟨digits ++ List.replicate (leading.toNat + 1 - digits.length) '0', ['0'], none⟩
  else ⟨digits.take (leading.toNat + 1), digits.drop (leading.toNat + 1), none⟩

def scientificParts (digits : List Char) (leading : Int) : NumeralParts :=
  ⟨digits.take 1, digits.drop 1, some leading⟩

/-- The parts that a layout writes a decimal in. -/
def parts (layout : NumberLayout) (d : Decimal) : NumeralParts :=
  if layout.isPositional (leading d) then positionalParts (significant d.coefficient) (leading d)
  else scientificParts (significant d.coefficient) (leading d)

theorem positional_eq_text {layout : NumberLayout} (hpoint : layout.pointZero = true)
    {digits : List Char} (hne : digits ≠ []) (leading : Int) :
    layout.positional digits leading = (positionalParts digits leading).text layout := by
  unfold positional positionalParts
  simp only [hpoint, if_true]
  split_ifs with hneg hshort
  · have hfraction : List.replicate (-leading - 1).toNat '0' ++ digits ≠ [] := by simp [hne]
    simp only [NumeralParts.text, NumeralParts.fractionText_of_ne_nil hfraction]
    simp
  · simp [NumeralParts.text, NumeralParts.fractionText]
  · have hfraction : digits.drop (leading.toNat + 1) ≠ [] := by
      rw [Ne, List.drop_eq_nil_iff]
      omega
    simp only [NumeralParts.text, NumeralParts.fractionText_of_ne_nil hfraction]
    simp

theorem scientific_eq_text (layout : NumberLayout) {digits : List Char} (hne : digits ≠ [])
    (leading : Int) :
    layout.scientific digits leading = (scientificParts digits leading).text layout := by
  match digits, hne with
  | [d], _ => simp [scientific, scientificParts, NumeralParts.text, NumeralParts.fractionText]
  | d :: e :: rest, _ =>
    simp [scientific, scientificParts, NumeralParts.text, NumeralParts.fractionText]

/-- What a layout writes are the parts. -/
theorem decimal_eq_text {layout : NumberLayout} (hpoint : layout.pointZero = true) (d : Decimal) :
    layout.decimal d = (layout.parts d).text layout := by
  have hne := significant_ne_nil d.coefficient
  have hdecimal : layout.decimal d = if layout.isPositional (leading d) then
      layout.positional (significant d.coefficient) (leading d)
      else layout.scientific (significant d.coefficient) (leading d) := rfl
  rw [hdecimal, parts]
  split_ifs
  · exact positional_eq_text hpoint hne _
  · exact scientific_eq_text layout hne _

theorem value_positionalParts (negative : Bool) (digits : List Char) (leading : Int) :
    (positionalParts digits leading).value negative =
      .ofDecimal negative (digitsValue digits) (leading + 1 - digits.length) := by
  unfold positionalParts
  split_ifs with hneg hshort
  · have hvalue : digitsValue (['0'] ++ (List.replicate (-leading - 1).toNat '0' ++ digits)) =
        digitsValue digits := by
      rw [← List.append_assoc, ← List.replicate_one, List.replicate_append_replicate,
        digitsValue_zeros_append]
    simp only [NumeralParts.value, hvalue, List.length_append, List.length_replicate]
    congr 1
    push_cast
    simp only [Option.getD_none]
    omega
  · have hvalue : digitsValue (digits ++
        List.replicate (leading.toNat + 1 - digits.length) '0' ++ ['0']) =
        digitsValue digits * 10 ^ (leading.toNat + 1 - digits.length + 1) := by
      rw [List.append_assoc, ← List.replicate_succ', digitsValue_append_zeros]
    simp only [NumeralParts.value, hvalue, Binary64.ofDecimal_mul_pow]
    congr 1
    simp only [Option.getD_none, List.length_singleton]
    omega
  · simp only [NumeralParts.value, List.take_append_drop, List.length_drop]
    congr 1
    simp only [Option.getD_none]
    omega

theorem value_scientificParts (negative : Bool) {digits : List Char} (hne : digits ≠ [])
    (leading : Int) :
    (scientificParts digits leading).value negative =
      .ofDecimal negative (digitsValue digits) (leading + 1 - digits.length) := by
  have hpos := List.length_pos_iff.2 hne
  simp only [NumeralParts.value, scientificParts, List.take_append_drop, List.length_drop]
  congr 1
  simp only [Option.getD_some]
  omega

/-- The parts say what the decimal says. -/
theorem value_parts (layout : NumberLayout) (negative : Bool) (d : Decimal) :
    (layout.parts d).value negative = .ofDecimal negative d.coefficient d.exponent := by
  have hne := significant_ne_nil d.coefficient
  unfold parts
  split_ifs
  · rw [value_positionalParts, ofDecimal_significant]
  · rw [value_scientificParts negative hne, ofDecimal_significant]

theorem wellFormed_positionalParts {digits : List Char} {leading : Int} (hne : digits ≠ [])
    (hdigits : AllDigits digits)
    (hzero : digits.head? = some '0' → digits = ['0'] ∧ leading = 0) :
    (positionalParts digits leading).WellFormed := by
  unfold positionalParts
  split_ifs with hneg hshort
  · exact {
      whole_ne_nil := by simp
      whole_digits := by simp [AllDigits]
      leading_zero := fun _ => rfl
      fraction_digits := (allDigits_zeros _).append hdigits
      marked := by simp [hne] }
  · exact {
      whole_ne_nil := by simp [hne]
      whole_digits := hdigits.append (allDigits_zeros _)
      leading_zero := fun h => by
        rw [List.head?_append_of_ne_nil _ hne] at h
        obtain ⟨rfl, rfl⟩ := hzero h
        rfl
      fraction_digits := by simp [AllDigits]
      marked := by simp }
  · exact {
      whole_ne_nil := by simp [hne]
      whole_digits := hdigits.subset (List.take_subset _ _)
      leading_zero := fun h => by
        rw [List.head?_take, if_neg (by omega)] at h
        obtain ⟨rfl, rfl⟩ := hzero h
        rfl
      fraction_digits := hdigits.subset (List.drop_subset _ _)
      marked := fun h => by
        rw [List.drop_eq_nil_iff] at h
        omega }

theorem wellFormed_scientificParts {digits : List Char} (hne : digits ≠ [])
    (hdigits : AllDigits digits) (leading : Int) :
    (scientificParts digits leading).WellFormed where
  whole_ne_nil := by simp [scientificParts, hne]
  whole_digits := hdigits.subset (List.take_subset _ _)
  leading_zero h := by
    match digits, hne with
    | d :: _, _ => simpa [scientificParts] using h
  fraction_digits := hdigits.subset (List.drop_subset _ _)
  marked _ := by simp [scientificParts]

theorem wellFormed_parts (layout : NumberLayout) (d : Decimal) : (layout.parts d).WellFormed := by
  have hne := significant_ne_nil d.coefficient
  have hdigits := allDigits_significant d.coefficient
  unfold parts
  split_ifs
  · refine wellFormed_positionalParts hne hdigits fun h => ?_
    by_cases hc : d.coefficient = 0
    · rw [hc, leading, if_pos hc]
      exact ⟨significant_zero, rfl⟩
    · exact absurd h (head?_significant_ne_zero hc)
  · exact wellFormed_scientificParts hne hdigits _

/-- The shortest digits of a number say that number, however they are laid out. -/
theorem value_parts_shortest (layout : NumberLayout) (negative : Bool) (rank : Fin Binary64.finiteCount) :
    (layout.parts (Binary64.shortest layout.tie rank)).value negative = .finite negative rank := by
  rw [value_parts, Binary64.ofDecimal_eq_ofRank, Binary64.decimalRank_shortest layout.tie rank.isLt,
    Binary64.ofRank_of_lt rank.isLt]

theorem toList_text_finite {layout : NumberLayout} (hpoint : layout.pointZero = true) (negative : Bool)
    (rank : Fin Binary64.finiteCount) : ((Binary64.finite negative rank).text layout).toList =
      if negative then '-' :: (layout.parts (Binary64.shortest layout.tie rank)).text layout
      else (layout.parts (Binary64.shortest layout.tie rank)).text layout := by
  rw [← decimal_eq_text hpoint]
  exact String.toList_ofList

/-- Without a power of ten nothing follows the fraction. -/
theorem power_parts {layout : NumberLayout} {d : Decimal} (h : layout.isPositional (leading d) = true) :
    (layout.parts d).power = none := by
  rw [parts, if_pos h]
  unfold positionalParts
  split_ifs
  · rfl
  · rfl
  · rfl

end NumberLayout

end ModelBinding
