import ModelBinding.Document.Toml.Reader
import ModelBinding.Document.Toml.Writer
import ModelBinding.Proofs.Document.Taking
import ModelBinding.Proofs.Number.Parts

/-!
# Reading what was written in TOML: numbers

A number is written without an exponent, and its digits are followed by what goes on with no number. No
number begins as a date does, because the marks of a date stand where a number has a digit, its point or
its end.
-/
namespace ModelBinding.Toml

/-- What can follow a value: the end of its line, or of the item that it is. -/
def EndsValue (rest : List Char) : Prop := ∀ c ∈ rest.head?, c = '\n' ∨ c = ',' ∨ c = ']'

variable {rest : List Char}

theorem EndsValue.head {p : Char → Prop} (h : EndsValue rest) (hnewline : p '\n') (hcomma : p ',')
    (hbracket : p ']') : ∀ c ∈ rest.head?, p c := by
  intro c hc
  rcases h c hc with rfl | rfl | rfl
  · exact hnewline
  · exact hcomma
  · exact hbracket

/-! ## Digits -/

theorem digitRun_append {isDigit : Char → Bool} {run : List Char} (hrun : ∀ c ∈ run, isDigit c = true)
    (hrest : ∀ c ∈ rest.head?, isDigit c = false ∧ c ≠ '_') : digitRun isDigit (run ++ rest) = (run, rest) := by
  induction run with
  | nil =>
    cases rest with
    | nil => rfl
    | cons c r =>
      obtain ⟨hdigit, hunderscore⟩ := hrest c rfl
      simp [digitRun, hdigit, hunderscore]
  | cons c run ih =>
    obtain ⟨hc, hmore⟩ := List.forall_mem_cons.1 hrun
    simp [digitRun, hc, ih hmore]

theorem digits_append {run : List Char} (hne : run ≠ []) (hrun : AllDigits run)
    (hrest : ∀ c ∈ rest.head?, c.isDigit = false ∧ c ≠ '_') :
    digits Char.isDigit (run ++ rest) = some (run, rest) := by
  obtain ⟨c, more, rfl⟩ := List.exists_cons_of_ne_nil hne
  have hspan := digitRun_append hrun hrest
  rw [List.cons_append] at hspan ⊢
  rw [digits, if_pos (hrun c (by simp)), hspan]

theorem wholeDigits_append {whole : List Char} (hne : whole ≠ []) (hwhole : AllDigits whole)
    (hzero : whole.head? = some '0' → whole = ['0'])
    (hrest : ∀ c ∈ rest.head?, c.isDigit = false ∧ c ≠ '_') :
    wholeDigits (whole ++ rest) = some (whole, rest) := by
  have hdigits := digits_append hne hwhole hrest
  unfold wholeDigits
  split
  · rename_i r hfirst
    have hhead : whole.head? = some '0' := by
      rw [← List.head?_append_of_ne_nil _ hne, hfirst]
      rfl
    rw [hzero hhead] at hfirst ⊢
    cases hfirst
    rfl
  · exact hdigits

theorem fraction_fractionText {digits : List Char} (h : AllDigits digits) (hrest : EndsValue rest) :
    fraction (NumeralParts.fractionText digits ++ rest) = some (digits, rest) := by
  cases digits with
  | nil =>
    have hpoint : ∀ c ∈ rest.head?, c ≠ '.' := hrest.head (by decide) (by decide) (by decide)
    cases rest with
    | nil => rfl
    | cons c r => simp [NumeralParts.fractionText, fraction, hpoint c rfl]
  | cons d more =>
    rw [NumeralParts.fractionText_of_ne_nil (List.cons_ne_nil d more), List.cons_append, fraction]
    exact digits_append (List.cons_ne_nil d more) h (hrest.head (by decide) (by decide) (by decide))

theorem exponent_absent (hrest : EndsValue rest) : exponent rest = some (none, rest) := by
  have hmark : ∀ c ∈ rest.head?, c ≠ 'e' ∧ c ≠ 'E' := hrest.head (by decide) (by decide) (by decide)
  cases rest with
  | nil => rfl
  | cons c r =>
    obtain ⟨he, hE⟩ := hmark c rfl
    simp [exponent, he, hE]

/-! ## Numerals -/

/-- Digits before the point without a zero at the front, and digits after it. -/
structure Positional (whole fraction : List Char) : Prop where
  whole_ne_nil : whole ≠ []
  whole_digits : AllDigits whole
  leading_zero : whole.head? = some '0' → whole = ['0']
  fraction_digits : AllDigits fraction

/-- An integer if there is no fraction. -/
def numeralValue? (negative : Bool) (whole fraction : List Char) : Option Value :=
  let numeral : Numeral := ⟨negative, whole, fraction, 0⟩
  if fraction.isEmpty then integerValue? numeral.toInt else floatValue? numeral.toBinary64

section Numeral

variable {negative : Bool} {whole fraction : List Char} {v : Value}

/-- The value of a number in base ten: an integer where neither a fraction nor a power is written. -/
def decimalValue? (negative : Bool) (whole fraction : List Char) (power : Option Int) : Option Value :=
  let numeral : Numeral := ⟨negative, whole, fraction, power.getD 0⟩
  if fraction.isEmpty ∧ power.isNone then integerValue? numeral.toInt else floatValue? numeral.toBinary64

theorem found?_decimalNumber {power : Option Int} {s r r' : List Char} (hwhole : wholeDigits s = some (whole, r))
    (hfraction : Toml.fraction r = some (fraction, r')) (hexponent : Toml.exponent r' = some (power, rest)) :
    (decimalNumber negative).found? s = (decimalValue? negative whole fraction power).map fun v => (v, rest) := by
  unfold Reader.found? decimalNumber
  split
  · rename_i hw
    rw [hwhole] at hw
    cases hw
  · rename_i hw
    rw [hwhole] at hw
    cases hw
    split
    · rename_i hf
      rw [hfraction] at hf
      cases hf
    · rename_i hf
      rw [hfraction] at hf
      cases hf
      split
      · rename_i he
        rw [hexponent] at he
        cases he
      · rename_i he
        rw [hexponent] at he
        cases he
        rw [Option.map_map]
        rfl

theorem takes_decimalNumber (h : Positional whole fraction)
    (hv : numeralValue? negative whole fraction = some v) (hrest : EndsValue rest) :
    (decimalNumber negative).Takes (whole ++ (NumeralParts.fractionText fraction ++ rest)) v rest := by
  have hafter : ∀ c ∈ (NumeralParts.fractionText fraction ++ rest).head?, c.isDigit = false ∧ c ≠ '_' :=
    NumeralParts.head?_fractionText (by decide) (hrest.head (by decide) (by decide) (by decide))
  have hwhole := wholeDigits_append h.whole_ne_nil h.whole_digits h.leading_zero hafter
  have hfraction := fraction_fractionText h.fraction_digits hrest
  have hvalue : decimalValue? negative whole fraction none = some v := by
    simpa [decimalValue?, numeralValue?] using hv
  rw [Reader.takes_iff, found?_decimalNumber hwhole hfraction (exponent_absent hrest), hvalue, Option.map_some]

theorem signedNumber_of_digit {c : Char} (h : c.isDigit = true) (r : List Char) :
    signedNumber negative (c :: r) = decimalNumber negative (c :: r) := by
  have hword : c ≠ 'i' ∧ c ≠ 'n' := by
    constructor
    · rintro rfl
      cases h
    · rintro rfl
      cases h
  simp [signedNumber, hword.1, hword.2]

theorem sign_of_digit {c : Char} (h : c.isDigit = true) (r : List Char) :
    sign (c :: r) = (false, c :: r) := by
  unfold sign
  split
  · rename_i heq
    cases heq
    cases h
  · rename_i heq
    cases heq
    cases h
  · rfl

theorem radixInteger_eq_none {s : List Char} (h : ∀ c r, s = '0' :: c :: r → radixOf? c = none) :
    radixInteger s = none := by
  unfold radixInteger
  split
  · rename_i c r
    rw [h c r rfl]
  · rfl

/-- A zero at the front is followed by the point or by the end. -/
theorem radixInteger_positional (h : Positional whole fraction) (hrest : EndsValue rest) :
    radixInteger (whole ++ (NumeralParts.fractionText fraction ++ rest)) = none := by
  refine radixInteger_eq_none fun c r hs => ?_
  have hhead : whole.head? = some '0' := by
    rw [← List.head?_append_of_ne_nil _ h.whole_ne_nil, hs]
    rfl
  rw [h.leading_zero hhead] at hs
  have hbehind : NumeralParts.fractionText fraction ++ rest = c :: r := (List.cons.inj hs).2
  have hplain : ∀ d ∈ (NumeralParts.fractionText fraction ++ rest).head?, radixOf? d = none :=
    NumeralParts.head?_fractionText rfl (hrest.head rfl rfl rfl)
  exact hplain c (congrArg List.head? hbehind)

theorem found?_number_of_sign {s r : List Char} (hradix : radixInteger s = none) (hsign : sign s = (negative, r)) :
    number.found? s = (signedNumber negative).found? r := by
  have hnumber : number.found? s = (signedNumber (sign s).1).found? (sign s).2 :=
    Reader.found?_widen (sign_length s) (by rw [number, hradix])
  rwa [hsign] at hnumber

theorem takes_number_of_signed {s r : List Char} (hradix : radixInteger s = none)
    (hsign : sign s = (negative, r)) (h : (signedNumber negative).Takes r v rest) : number.Takes s v rest := by
  rwa [Reader.takes_iff, found?_number_of_sign hradix hsign, ← Reader.takes_iff]

/-- What stands before the digits of a number. -/
def signText (negative : Bool) : List Char := if negative then ['-'] else []

/-- A numeral with its sign, if it has one, is read as its value. -/
theorem takes_number (h : Positional whole fraction)
    (hv : numeralValue? negative whole fraction = some v) (hrest : EndsValue rest) :
    number.Takes (signText negative ++ (whole ++ (NumeralParts.fractionText fraction ++ rest))) v rest := by
  have hdecimal := takes_decimalNumber h hv hrest
  have hradix := radixInteger_positional h hrest
  obtain ⟨c, more, rfl⟩ := List.exists_cons_of_ne_nil h.whole_ne_nil
  have hc : c.isDigit = true := h.whole_digits c (by simp)
  rw [List.cons_append] at hdecimal hradix ⊢
  rw [Reader.Takes, ← signedNumber_of_digit hc] at hdecimal
  cases negative with
  | true => exact takes_number_of_signed rfl rfl hdecimal
  | false => exact takes_number_of_signed hradix (sign_of_digit hc _) hdecimal

end Numeral

/-! ## Written numbers -/

theorem integerValue?_toInt (i : Int64) : integerValue? i.toInt = some (.integer i) := by
  have hle := Int64.le_toInt i
  have hlt := Int64.toInt_lt i
  rw [integerValue?, if_pos (by omega), Int64.ofInt_toInt]

/-- The digits of a natural number as a numeral. -/
theorem positional_toDigits (n : Nat) : Positional (Nat.toDigits 10 n) [] where
  whole_ne_nil := Nat.toDigits_ne_nil
  whole_digits := allDigits_toDigits n
  leading_zero h := by
    by_cases hn : n = 0
    · rw [hn, Nat.toDigits_zero]
    · exact absurd h (head?_toDigits_ne_zero hn)
  fraction_digits := List.forall_mem_nil _

/-- A written number is a numeral with its sign. -/
structure Written (negative : Bool) (whole fraction text : List Char) (v : Value) : Prop where
  positional : Positional whole fraction
  value : numeralValue? negative whole fraction = some v
  text : text = signText negative ++ (whole ++ NumeralParts.fractionText fraction)

theorem written_integer (i : Int64) :
    Written (decide (i.toInt < 0)) (Nat.toDigits 10 i.toInt.natAbs) [] (toString i.toInt).toList (.integer i) where
  positional := positional_toDigits _
  value := by
    have hint : Numeral.toInt ⟨decide (i.toInt < 0), Nat.toDigits 10 i.toInt.natAbs, [], 0⟩ = i.toInt := by
      rw [Numeral.toInt, digitsValue_toDigits]
      by_cases h : i.toInt < 0
      · rw [if_pos (decide_eq_true h)]
        omega
      · rw [if_neg (by simpa using h)]
        omega
    exact (congrArg integerValue? hint).trans (integerValue?_toInt i)
  text := by
    rw [toList_toString_int, signText]
    by_cases h : i.toInt < 0
    · simp [h, NumeralParts.fractionText]
    · simp [h, NumeralParts.fractionText]

theorem written_finite (negative : Bool) (rank : Fin Binary64.finiteCount) :
    let parts := numbers.parts (Binary64.shortest numbers.tie rank)
    Written negative parts.whole parts.fraction ((Binary64.finite negative rank).text numbers).toList
      (.float (.finite negative rank)) := by
  intro parts
  have hwell := NumberLayout.wellFormed_parts numbers (Binary64.shortest numbers.tie rank)
  have hpower : parts.power = none := NumberLayout.power_parts rfl
  have hvalue : parts.value negative = .finite negative rank :=
    NumberLayout.value_parts_shortest numbers negative rank
  have hfraction : parts.fraction ≠ [] := fun h => hwell.marked h hpower
  refine ⟨⟨hwell.whole_ne_nil, hwell.whole_digits, hwell.leading_zero, hwell.fraction_digits⟩, ?_, ?_⟩
  · rw [NumeralParts.value, hpower] at hvalue
    rw [numeralValue?, if_neg (by simpa using hfraction), Numeral.toBinary64]
    exact congrArg floatValue? hvalue
  · rw [NumberLayout.toList_text_finite rfl, signText]
    have htext : parts.text numbers = parts.whole ++ NumeralParts.fractionText parts.fraction := by
      simp [NumeralParts.text, hpower]
    cases negative with
    | _ => simp [parts, ← htext]

/-! ## What is no date -/

theorem field_eq_some {count greatest : Nat} {s ds r : List Char} (h : field count greatest s = some (ds, r)) :
    s = ds ++ r ∧ AllDigits ds ∧ ds.length = count := by
  unfold field at h
  simp only [Option.ite_none_right_eq_some, Option.some.injEq, Prod.mk.injEq] at h
  obtain ⟨⟨hlength, hall, -⟩, rfl, rfl⟩ := h
  exact ⟨(List.take_append_drop count s).symm, List.all_eq_true.1 hall, hlength⟩

theorem mark_eq_some {c : Char} {s r : List Char} (h : mark c s = some r) : s = c :: r := by
  unfold mark at h
  split at h
  · split_ifs at h with hc
    cases h
    rw [hc]
  · cases h

/-- A number of a date has a digit, and after its digits comes the mark that separates it from the next. -/
theorem digits_of_field {count greatest : Nat} {c : Char} {s ds r r' : List Char} (hcount : count ≠ 0)
    (hc : c.isDigit = false) (hfield : field count greatest s = some (ds, r)) (hmark : mark c r = some r') :
    (∃ d ∈ s.head?, d.isDigit = true) ∧ (s.dropWhile Char.isDigit).head? = some c := by
  obtain ⟨rfl, hdigits, hlength⟩ := field_eq_some hfield
  have hother : ∀ d ∈ r.head?, d.isDigit = false := by
    rw [mark_eq_some hmark]
    intro d hd
    cases hd
    exact hc
  rw [(span_append hdigits hother).2, mark_eq_some hmark]
  cases ds with
  | nil => exact absurd hlength.symm hcount
  | cons d ds => exact ⟨⟨d, rfl, hdigits d (by simp)⟩, rfl⟩

/-- What begins with a digit is no date if its digits are not followed by a mark of a date. -/
theorem dateTime_eq_none {s : List Char} (h : (∃ d ∈ s.head?, d.isDigit = true) →
    ∀ c ∈ (s.dropWhile Char.isDigit).head?, c ≠ '-' ∧ c ≠ ':') : dateTime s = none := by
  have hdate : date s = none := by
    by_contra hsome
    obtain ⟨result, hresult⟩ := Option.ne_none_iff_exists'.1 hsome
    obtain ⟨⟨year, r⟩, hyear, hresult⟩ := Option.bind_eq_some_iff.1 hresult
    obtain ⟨r', hmark, -⟩ := Option.bind_eq_some_iff.1 hresult
    obtain ⟨hdigit, hminus⟩ := digits_of_field (by decide) rfl hyear hmark
    exact (h hdigit '-' hminus).1 rfl
  have htime : time s = none := by
    by_contra hsome
    obtain ⟨result, hresult⟩ := Option.ne_none_iff_exists'.1 hsome
    obtain ⟨⟨hour, r⟩, hhour, hresult⟩ := Option.bind_eq_some_iff.1 hresult
    obtain ⟨r', hmark, -⟩ := Option.bind_eq_some_iff.1 hresult
    obtain ⟨hdigit, hcolon⟩ := digits_of_field (by decide) rfl hhour hmark
    exact (h hdigit ':' hcolon).2 rfl
  rw [dateTime, dateTimeText, hdate, htime]

theorem dateTime_of_not_digit {c : Char} (h : c.isDigit = false) (r : List Char) :
    dateTime (c :: r) = none := by
  refine dateTime_eq_none fun ⟨d, hd, hdigit⟩ => ?_
  cases hd
  rw [h] at hdigit
  cases hdigit

theorem dateTime_positional (negative : Bool) {whole fraction : List Char} (h : Positional whole fraction)
    (hrest : EndsValue rest) :
    dateTime (signText negative ++ (whole ++ (NumeralParts.fractionText fraction ++ rest))) = none := by
  cases negative with
  | true => exact dateTime_of_not_digit rfl _
  | false =>
    refine dateTime_eq_none fun _ => ?_
    have hafter : ∀ c ∈ (NumeralParts.fractionText fraction ++ rest).head?,
        c.isDigit = false ∧ c ≠ '-' ∧ c ≠ ':' :=
      NumeralParts.head?_fractionText (by decide) (hrest.head (by decide) (by decide) (by decide))
    have hspan := span_append h.whole_digits fun c hc => (hafter c hc).1
    rw [signText, if_neg Bool.false_ne_true, List.nil_append, hspan.2]
    exact fun c hc => (hafter c hc).2

/-! ## Numbers as values -/

/-- What begins as a number does is a date or a number. -/
theorem value_of_start (depth : Nat) {c : Char} {r : List Char}
    (hc : c.isDigit = true ∨ c ∈ ['-', '+', 'i', 'n']) : value depth (c :: r) =
      ((dateTime (c :: r)).map (Read.map .dateTime)).or ((number (c :: r)).map (Read.map .value)) := by
  have hne : ∀ d : Char, d.isDigit = false → d ∉ ['-', '+', 'i', 'n'] → c ≠ d := by
    rintro d hdigit hstart rfl
    rcases hc with hc | hc
    · rw [hdigit] at hc
      cases hc
    · exact hstart hc
  have h1 : c ≠ '"' := hne _ rfl (by decide)
  have h2 : c ≠ '\'' := hne _ rfl (by decide)
  have h3 : c ≠ 't' := hne _ rfl (by decide)
  have h4 : c ≠ 'f' := hne _ rfl (by decide)
  have h5 : c ≠ '[' := hne _ rfl (by decide)
  have h6 : c ≠ '\x7b' := hne _ rfl (by decide)
  unfold value
  simp only [h1, h2, h3, h4, h5, h6, or_self, if_false]
  cases dateTime (c :: r) with
  | none => rfl
  | some read => rfl

theorem value_of_number (depth : Nat) {c : Char} {r : List Char}
    (hc : c.isDigit = true ∨ c ∈ ['-', '+', 'i', 'n']) (hdate : dateTime (c :: r) = none) :
    value depth (c :: r) = (number (c :: r)).map (Read.map Node.value) := by
  rw [value_of_start depth hc, hdate]
  rfl

theorem takes_value_written (depth : Nat) {negative : Bool} {whole fraction text : List Char} {v : Value}
    (h : Written negative whole fraction text v) (hrest : EndsValue rest) :
    (value depth).Takes (text ++ rest) (.value v) rest := by
  have hnumber := takes_number h.positional h.value hrest
  have hdate := dateTime_positional negative h.positional hrest
  have htext : text ++ rest =
      signText negative ++ (whole ++ (NumeralParts.fractionText fraction ++ rest)) := by
    rw [h.text, List.append_assoc, List.append_assoc]
  rw [← htext] at hnumber hdate
  have hhead : ∃ c r, text ++ rest = c :: r ∧ (c.isDigit = true ∨ c = '-') := by
    obtain ⟨c, more, hc⟩ := List.exists_cons_of_ne_nil h.positional.whole_ne_nil
    rw [htext, hc]
    cases negative with
    | true => exact ⟨_, _, rfl, .inr rfl⟩
    | false => exact ⟨_, _, rfl, .inl (h.positional.whole_digits c (by simp [hc]))⟩
  obtain ⟨c, r, hcr, hc⟩ := hhead
  rw [hcr] at hnumber hdate ⊢
  exact hnumber.map Node.value (value_of_number depth (hc.imp_right fun hc => by simp [hc]) hdate)

theorem takes_value_integer (depth : Nat) (i : Int64) (hrest : EndsValue rest) :
    (value depth).Takes ((toString i.toInt).toList ++ rest) (.value (.integer i)) rest :=
  takes_value_written depth (written_integer i) hrest

/-- What is no finite number is a word, with a sign if it has one. -/
theorem takes_value_word (depth : Nat) {c : Char} {r : List Char} {v : Value}
    (hc : c = '-' ∨ c = 'i' ∨ c = 'n') (h : number.Takes (c :: r) v rest) :
    (value depth).Takes (c :: r) (.value v) rest := by
  have hdigit : c.isDigit = false := by
    rcases hc with rfl | rfl | rfl
    all_goals rfl
  have hstart : c ∈ ['-', '+', 'i', 'n'] := by
    rcases hc with rfl | rfl | rfl
    all_goals decide
  exact h.map Node.value (value_of_number depth (.inr hstart) (dateTime_of_not_digit hdigit r))

theorem takes_value_float (depth : Nat) (x : Binary64) (hrest : EndsValue rest) :
    (value depth).Takes ((x.text numbers).toList ++ rest) (.value (.float x)) rest := by
  cases x with
  | nan =>
    have hword := takes_word 'n' ['a', 'n'] rest (Value.float .nan)
    have hsigned : (signedNumber false).Takes ('n' :: ['a', 'n'] ++ rest) (.float .nan) rest := hword
    exact takes_value_word depth (.inr (.inr rfl)) (takes_number_of_signed rfl rfl hsigned)
  | infinite negative =>
    have hword := takes_word 'i' ['n', 'f'] rest (Value.float (.infinite negative))
    cases negative with
    | true => exact takes_value_word depth (.inl rfl) (takes_number_of_signed rfl rfl hword)
    | false => exact takes_value_word depth (.inr (.inl rfl)) (takes_number_of_signed rfl rfl hword)
  | finite negative rank => exact takes_value_written depth (written_finite negative rank) hrest

end ModelBinding.Toml
