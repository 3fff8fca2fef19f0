import ModelBinding.Proofs.Json.RoundTrip

/-!
# The numbers of JSON

What texts are numbers, and what is read from them. A number is an integer only if it is written without a
fraction and a power of ten and fits 64 bits; any other is the double that the reader finds, and so is a zero
with a minus. A double that is not finite is refused.
-/
namespace ModelBinding.Json

variable {rounding : Rounding} {negative : Bool} {parts : NumeralParts} {power rest : List Char}

/-- A power of ten: none, or digits after an `e`, perhaps with a sign. -/
inductive IsPower : Option Int → List Char → Prop where
  | absent : IsPower none []
  | plain {mark : Char} {digits : List Char} (hmark : mark = 'e' ∨ mark = 'E') (hne : digits ≠ [])
    (hdigits : AllDigits digits) : IsPower (some (digitsValue digits)) (mark :: digits)
  | plus {mark : Char} {digits : List Char} (hmark : mark = 'e' ∨ mark = 'E') (hne : digits ≠ [])
    (hdigits : AllDigits digits) : IsPower (some (digitsValue digits)) (mark :: '+' :: digits)
  | minus {mark : Char} {digits : List Char} (hmark : mark = 'e' ∨ mark = 'E') (hne : digits ≠ [])
    (hdigits : AllDigits digits) : IsPower (some (-digitsValue digits)) (mark :: '-' :: digits)

/-- A number: perhaps a minus, digits without a zero in front of others, a fraction and a power of ten. -/
inductive IsNumber : Bool → NumeralParts → List Char → Prop where
  | plain {parts : NumeralParts} {power : List Char} (hne : parts.whole ≠ []) (hwhole : AllDigits parts.whole)
    (hzero : parts.whole.head? = some '0' → parts.whole = ['0']) (hfraction : AllDigits parts.fraction)
    (hpower : IsPower parts.power power) :
    IsNumber false parts (parts.whole ++ (NumeralParts.fractionText parts.fraction ++ power))
  | minus {parts : NumeralParts} {text : List Char} (h : IsNumber false parts text) :
    IsNumber true parts ('-' :: text)

/-! ## Reading -/

theorem eq_of_finite? {v w : Value} (h : finite? w = some v) : v = w := by
  unfold finite? at h
  split at h
  · cases h
  · cases h
  · exact (Option.some.inj h).symm

theorem exponent_of_isPower {value : Option Int} (h : IsPower value power) (hrest : EndsNumber rest) :
    exponent (power ++ rest) = some (value, rest) := by
  have hspan : ∀ {digits : List Char}, AllDigits digits → spanDigits (digits ++ rest) = (digits, rest) :=
    fun hdigits => spanDigits_append hdigits fun c hc => (hrest c hc).1
  cases h with
  | absent => exact exponent_absent hrest
  | @plain mark digits hmark hne hdigits =>
    obtain ⟨d, ds, rfl⟩ := List.exists_cons_of_ne_nil hne
    have hd : d.isDigit = true := hdigits d List.mem_cons_self
    have hminus : d ≠ '-' := fun he => by simp [he] at hd
    have hplus : d ≠ '+' := fun he => by simp [he] at hd
    have hspan := hspan hdigits
    rw [List.cons_append] at hspan
    simp [exponent, hmark, hminus, hplus, hspan]
  | @plus mark digits hmark hne hdigits | @minus mark digits hmark hne hdigits =>
    obtain ⟨d, ds, rfl⟩ := List.exists_cons_of_ne_nil hne
    have hspan := hspan hdigits
    rw [List.cons_append] at hspan
    simp [exponent, hmark, hspan]

theorem head?_of_isPower {value : Option Int} (h : IsPower value power) (hrest : EndsNumber rest) :
    ∀ c ∈ (power ++ rest).head?, c.isDigit = false ∧ c ≠ '.' := by
  have hmark : ∀ {mark : Char}, mark = 'e' ∨ mark = 'E' → mark.isDigit = false ∧ mark ≠ '.' := by
    rintro mark (rfl | rfl)
    · decide
    · decide
  cases h with
  | absent => exact fun c hc => ⟨(hrest c hc).1, (hrest c hc).2.1⟩
  | plain h | plus h | minus h =>
    intro c hc
    cases hc
    exact hmark h

theorem number_of_isNumber {text : List Char} (h : IsNumber false parts text) (rounding : Rounding)
    (negative : Bool) (hrest : EndsNumber rest) : (number rounding negative).found? (text ++ rest) =
      (finite? (numeralValue rounding negative parts)).map fun v => (v, rest) := by
  cases h with
  | plain hne hwhole hzero hfraction hpower =>
    rw [List.append_assoc, List.append_assoc]
    exact number_append rounding negative hne hwhole hzero hfraction (exponent_of_isPower hpower hrest)
      (head?_of_isPower hpower hrest)

theorem value_of_isNumber {text : List Char} (h : IsNumber negative parts text) (rounding : Rounding)
    (depth : Nat) (hrest : EndsNumber rest) : (value rounding depth).found? (text ++ rest) =
      (finite? (numeralValue rounding negative parts)).map fun v => (v, rest) := by
  cases h with
  | plain hne hwhole hzero hfraction hpower =>
    have hnumber := number_of_isNumber (.plain hne hwhole hzero hfraction hpower) rounding false hrest
    obtain ⟨d, ds, hd⟩ := List.exists_cons_of_ne_nil hne
    have hdigit : d.isDigit = true := hwhole d (by rw [hd]; exact List.mem_cons_self)
    rw [hd] at hnumber ⊢
    simp only [List.cons_append] at hnumber ⊢
    rw [Reader.found?, value_of_digit depth hdigit]
    exact hnumber
  | @minus parts text h =>
    rw [← number_of_isNumber h rounding true hrest, List.cons_append]
    refine Reader.found?_widen (Nat.le_succ _) ?_
    unfold value
    rfl

theorem isBlank_of_isDigit {c : Char} (h : c.isDigit = true) : isBlank c = false := by
  by_contra hblank
  have hc : c = ' ' ∨ c = '\n' ∨ c = '\t' ∨ c = '\r' := by
    simpa [isBlank, or_assoc] using eq_true_of_ne_false hblank
  rcases hc with rfl | rfl | rfl | rfl
  all_goals cases h

theorem skipBlank_of_isNumber {text : List Char} (h : IsNumber negative parts text) : skipBlank text = text := by
  cases h with
  | plain hne hwhole hzero hfraction hpower =>
    obtain ⟨d, ds, hd⟩ := List.exists_cons_of_ne_nil hne
    rw [hd, List.cons_append]
    exact skipBlank_cons (isBlank_of_isDigit (hwhole d (by rw [hd]; exact List.mem_cons_self))) _
  | minus h => exact skipBlank_cons rfl _

theorem parse?_eq (text : String) : parse? text rounding = ((value rounding maxDepth).found? (skipBlank text.toList)).bind
    fun (v, rest) => if skipBlank rest = [] then some v else none := by
  unfold parse? Reader.found?
  cases value rounding maxDepth (skipBlank text.toList) with
  | none => rfl
  | some read => rfl

/-- A text that is a number is read as its value, if that is finite. -/
theorem parse?_of_isNumber {text : String} (h : IsNumber negative parts text.toList) :
    parse? text rounding = finite? (numeralValue rounding negative parts) := by
  have hend : EndsNumber [] := fun c hc => nomatch hc
  have hvalue := value_of_isNumber h rounding maxDepth hend
  rw [List.append_nil] at hvalue
  rw [parse?_eq, skipBlank_of_isNumber h, hvalue]
  cases finite? (numeralValue rounding negative parts) with
  | none => rfl
  | some v => rfl

end ModelBinding.Json
