import ModelBinding.Document.Json.Reader
import ModelBinding.Document.Json.Writer
import ModelBinding.Proofs.Document.Taking
import ModelBinding.Proofs.Number.Parts

/-!
# Reading what was written: strings and numbers

The readers of JSON take the strings and numbers that the writer writes off the front of a text, and
leave what follows. A number ends only where something follows that cannot go on with it.
-/
namespace ModelBinding.Json

/-! ## Strings -/

theorem hexDigit?_hexDigit (n : Nat) : hexDigit? (hexDigit n) = some (n % 16) := by
  have hall : ∀ d < 16, hexDigit? (Nat.digitChar d) = some d := by decide
  exact hall (n % 16) (Nat.mod_lt n (by omega))

/-- The escape of a control character is read as that character. -/
theorem escape_control {c : Char} (h : c.toNat < 0x20) (s : List Char) :
    escape ('u' :: '0' :: '0' :: hexDigit (c.toNat / 16) :: hexDigit c.toNat :: s) =
      some (c, s) := by
  have hdigits : hexDigits? 0 4 ('0' :: '0' :: hexDigit (c.toNat / 16) :: hexDigit c.toNat :: s) =
      some (c.toNat, s) := by
    have hzero : hexDigit? '0' = some 0 := rfl
    simp only [hexDigits?, hzero, hexDigit?_hexDigit]
    congr 2
    omega
  have hunit : codeUnit c.toNat s = some (c, s) := by
    unfold codeUnit
    rw [if_neg (by omega), if_neg (by omega), Char.ofNat_toNat]
  simp [escape, hdigits, hunit]

/-- A character that is written as it is. -/
theorem takes_stringPiece_plain {c : Char} (hquote : c ≠ '"') (hbackslash : c ≠ '\\')
    (h : ¬ c.toNat < 0x20) (s : List Char) : stringPiece.Takes (c :: s) (.more [c]) s := by
  simp [Reader.Takes, stringPiece, hquote, hbackslash, h]

theorem takes_stringPiece_escape {c : Char} {r s : List Char} (h : escape r = some (c, s)) :
    stringPiece.Takes ('\\' :: r) (.more [c]) s := by
  unfold Reader.Takes stringPiece
  simp only [if_neg (by decide : ¬ '\\' = '"'), if_true]
  split
  · simp_all
  · rename_i d r' h'
    rw [h] at h'
    cases h'
    exact ⟨_, rfl, rfl, rfl⟩

theorem takes_stringPiece (c : Char) (s : List Char) :
    stringPiece.Takes (escapeChar c ++ s) (.more [c]) s := by
  unfold escapeChar
  split
  case h_8 hquote hbackslash _ _ _ _ _ =>
    split_ifs with h
    · exact takes_stringPiece_escape (escape_control h s)
    · exact takes_stringPiece_plain hquote hbackslash h s
  all_goals exact takes_stringPiece_escape rfl

theorem takes_pieces_escaped (chars rest : List Char) :
    Reader.Takes (pieces stringPiece) (chars.flatMap escapeChar ++ '"' :: rest) chars rest := by
  induction chars with
  | nil => exact takes_pieces_last ⟨_, rfl, rfl, rfl⟩
  | cons c chars ih =>
    rw [List.flatMap_cons, List.append_assoc]
    exact takes_pieces_more (takes_stringPiece c _) ih

/-- A quoted text is read as the text. -/
theorem takes_string (text : String) (rest : List Char) :
    string.Takes (quoted text ++ rest) text rest := by
  obtain ⟨read, hread, hvalue, hrest⟩ := takes_pieces_escaped text.toList rest
  have hs : quoted text ++ rest =
      '"' :: (text.toList.flatMap escapeChar ++ '"' :: rest) := by simp [quoted]
  rw [hs]
  refine ⟨(read.map String.ofList).behind, ?_, ?_, hrest⟩
  · simp only [string, hread, Option.map_some]
  · exact (congrArg String.ofList hvalue).trans String.ofList_toList

/-! ## Numbers -/

/-- What follows does not go on with a number. -/
def EndsNumber (rest : List Char) : Prop :=
  ∀ c ∈ rest.head?, c.isDigit = false ∧ c ≠ '.' ∧ c ≠ 'e' ∧ c ≠ 'E'

theorem spanDigits_append {digits rest : List Char} (h : AllDigits digits)
    (hrest : ∀ c ∈ rest.head?, c.isDigit = false) : spanDigits (digits ++ rest) = (digits, rest) := by
  obtain ⟨htake, hdrop⟩ := span_append h hrest
  rw [spanDigits, htake, hdrop]

theorem fraction_fractionText {digits rest : List Char} (h : AllDigits digits)
    (hrest : ∀ c ∈ rest.head?, c.isDigit = false ∧ c ≠ '.') :
    fraction (NumeralParts.fractionText digits ++ rest) = some (digits, rest) := by
  cases digits with
  | nil =>
    cases rest with
    | nil => rfl
    | cons c rest =>
      have hc := (hrest c rfl).2
      simp only [NumeralParts.fractionText, List.nil_append, fraction]
      split
      · simp_all
      · rfl
  | cons d digits =>
    have hspan := spanDigits_append h fun c hc => (hrest c hc).1
    rw [List.cons_append] at hspan
    simp [NumeralParts.fractionText, fraction, hspan]

theorem exponent_absent {rest : List Char} (h : EndsNumber rest) :
    exponent rest = some (none, rest) := by
  cases rest with
  | nil => rfl
  | cons c rest =>
    obtain ⟨-, -, he, hE⟩ := h c rfl
    simp [exponent, he, hE]

theorem exponent_exponentPart (layout : NumberLayout) (power : Int) {rest : List Char}
    (h : EndsNumber rest) :
    exponent (layout.exponentPart power ++ rest) = some (some power, rest) := by
  have hspan : spanDigits (Nat.toDigits 10 power.natAbs ++ rest) =
      (Nat.toDigits 10 power.natAbs, rest) :=
    spanDigits_append (allDigits_toDigits _) fun c hc => (h c hc).1
  obtain ⟨d, ds, hd⟩ := List.exists_cons_of_ne_nil (Nat.toDigits_ne_nil (n := power.natAbs) (b := 10))
  have hdigit : d.isDigit = true := allDigits_toDigits power.natAbs d (by simp [hd])
  have hvalue := digitsValue_toDigits power.natAbs
  rw [hd] at hspan hvalue
  rw [List.cons_append] at hspan
  unfold NumberLayout.exponentPart
  rw [hd]
  split_ifs with hneg hsign
  · simp only [exponent, List.cons_append, true_or, if_true, List.nil_append, hspan, hvalue]
    congr 3
    omega
  · simp only [exponent, List.cons_append, true_or, if_true, List.nil_append, hspan, hvalue]
    congr 3
    simp only [Bool.false_eq_true, if_false]
    omega
  · have hminus : d ≠ '-' := fun he => by simp [he] at hdigit
    have hplus : d ≠ '+' := fun he => by simp [he] at hdigit
    simp only [List.nil_append, List.cons_append]
    simp [exponent, hminus, hplus, hspan, hvalue]
    omega

theorem exponent_power (layout : NumberLayout) (power : Option Int) {rest : List Char}
    (h : EndsNumber rest) :
    exponent ((power.map layout.exponentPart).getD [] ++ rest) = some (power, rest) := by
  cases power with
  | none => exact exponent_absent h
  | some power => exact exponent_exponentPart layout power h

/-- A power or what follows the number ends its digits. -/
theorem head?_power (layout : NumberLayout) (power : Option Int) {rest : List Char} (h : EndsNumber rest) :
    ∀ c ∈ ((power.map layout.exponentPart).getD [] ++ rest).head?, c.isDigit = false ∧ c ≠ '.' := by
  cases power with
  | none => exact fun c hc => ⟨(h c hc).1, (h c hc).2.1⟩
  | some power =>
    intro c hc
    cases hc
    decide

theorem spanDigits_fractionText {whole digits rest : List Char} (hwhole : AllDigits whole)
    (hrest : ∀ c ∈ rest.head?, c.isDigit = false) :
    spanDigits (whole ++ (NumeralParts.fractionText digits ++ rest)) =
      (whole, NumeralParts.fractionText digits ++ rest) :=
  spanDigits_append hwhole (NumeralParts.head?_fractionText rfl hrest)

variable {rounding : Rounding}

/-- The value of a numeral: an integer where neither a fraction nor a power is written. -/
def numeralValue (rounding : Rounding) (negative : Bool) (parts : NumeralParts) : Value :=
  if parts.fraction.isEmpty ∧ parts.power.isNone then integerValue rounding (parts.numeral negative)
  else .float ((parts.numeral negative).rounded rounding)

/-- Each part of a numeral is read from where the one before it ends. -/
theorem found?_number (negative : Bool) {parts : NumeralParts} {s r r' rest : List Char}
    (hne : parts.whole ≠ []) (hzero : parts.whole.head? = some '0' → parts.whole = ['0'])
    (hwhole : spanDigits s = (parts.whole, r)) (hfraction : fraction r = some (parts.fraction, r'))
    (hpower : exponent r' = some (parts.power, rest)) :
    (number rounding negative).found? s = (finite? (numeralValue rounding negative parts)).map fun v => (v, rest) := by
  obtain ⟨whole, digits, power⟩ := parts
  obtain ⟨d, ds, rfl⟩ := List.exists_cons_of_ne_nil hne
  have hlead : ¬ (d = '0' ∧ ds ≠ []) := by
    rintro ⟨rfl, hds⟩
    exact hds (List.cons.inj (hzero rfl)).2
  unfold Reader.found? number
  split
  · rename_i hw
    rw [hwhole] at hw
    cases hw
  · rename_i hw
    rw [hwhole] at hw
    cases hw
    rw [if_neg hlead]
    split
    · rename_i hf
      rw [hfraction] at hf
      cases hf
    · rename_i hf
      rw [hfraction] at hf
      cases hf
      split
      · rename_i he
        rw [hpower] at he
        cases he
      · rename_i he
        rw [hpower] at he
        cases he
        rw [Option.map_map]
        rfl

/-- The parts of a numeral are told apart, and it is read as their value if that is finite. -/
theorem number_append (rounding : Rounding) (negative : Bool) {parts : NumeralParts} {power rest : List Char}
    (hne : parts.whole ≠ []) (hdigits : AllDigits parts.whole)
    (hzero : parts.whole.head? = some '0' → parts.whole = ['0']) (hfraction : AllDigits parts.fraction)
    (hexp : exponent (power ++ rest) = some (parts.power, rest))
    (hpower : ∀ c ∈ (power ++ rest).head?, c.isDigit = false ∧ c ≠ '.') :
    (number rounding negative).found? (parts.whole ++ (NumeralParts.fractionText parts.fraction ++ (power ++ rest))) =
      (finite? (numeralValue rounding negative parts)).map fun v => (v, rest) :=
  found?_number negative hne hzero (spanDigits_fractionText hdigits fun c hc => (hpower c hc).1)
    (fraction_fractionText hfraction hpower) hexp

theorem takes_number (layout : NumberLayout) (negative : Bool) {parts : NumeralParts} {v : Value}
    {rest : List Char} (hne : parts.whole ≠ []) (hdigits : AllDigits parts.whole)
    (hzero : parts.whole.head? = some '0' → parts.whole = ['0'])
    (hfraction : AllDigits parts.fraction) (hv : finite? (numeralValue rounding negative parts) = some v)
    (hrest : EndsNumber rest) : (number rounding negative).Takes (parts.text layout ++ rest) v rest := by
  have hnumber := number_append rounding negative hne hdigits hzero hfraction
    (exponent_power layout parts.power hrest) (head?_power layout parts.power hrest)
  rw [hv, Option.map_some, ← List.append_assoc (NumeralParts.fractionText parts.fraction),
    ← List.append_assoc parts.whole] at hnumber
  exact Reader.takes_iff.2 hnumber

/-- A float that is written in parts is read as the number that is found of their numeral. -/
theorem takes_number_float (layout : NumberLayout) (negative : Bool) {parts : NumeralParts}
    (h : parts.WellFormed) {sign : Bool} {rank : Fin Binary64.finiteCount}
    (hv : (parts.numeral negative).rounded rounding = .finite sign rank) {rest : List Char}
    (hrest : EndsNumber rest) :
    (number rounding negative).Takes (parts.text layout ++ rest) (.float (.finite sign rank)) rest := by
  have hmark : ¬ (parts.fraction.isEmpty ∧ parts.power.isNone) := by
    rw [List.isEmpty_iff, Option.isNone_iff_eq_none]
    exact fun hm => h.marked hm.1 hm.2
  apply takes_number layout negative h.whole_ne_nil h.whole_digits h.leading_zero
    h.fraction_digits _ hrest
  rw [numeralValue, if_neg hmark, hv]
  rfl

/-- The digits of a natural number are read as the integer with that sign. -/
theorem takes_number_integer (negative : Bool) (n : Nat) {v : Value} {rest : List Char}
    (hv : finite? (integerValue rounding ⟨negative, Nat.toDigits 10 n, [], 0⟩) = some v)
    (hrest : EndsNumber rest) :
    (number rounding negative).Takes (Nat.toDigits 10 n ++ rest) v rest := by
  have hzero : (Nat.toDigits 10 n).head? = some '0' → Nat.toDigits 10 n = ['0'] := by
    intro h
    by_cases hn : n = 0
    · rw [hn, Nat.toDigits_zero]
    · exact absurd h (head?_toDigits_ne_zero hn)
  let parts : NumeralParts := ⟨Nat.toDigits 10 n, [], none⟩
  have htext : parts.text numbers = Nat.toDigits 10 n := by
    simp [parts, NumeralParts.text, NumeralParts.fractionText]
  rw [← htext]
  exact takes_number numbers negative Nat.toDigits_ne_nil (allDigits_toDigits n) hzero
    (by simp [parts, AllDigits]) hv hrest

end ModelBinding.Json
