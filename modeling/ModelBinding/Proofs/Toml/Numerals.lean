import ModelBinding.Proofs.Toml.Numbers

/-!
# The numbers of TOML

What texts are integers and floats. Digits may stand apart with an underscore between them, a sign may go
before any number in base ten, and a float is told by its point, its power of ten or its word. A value that
is read from such a text is the number, and an integer has 64 bits.
-/
namespace ModelBinding.Toml

/-- What follows a number: a blank, a comment, the end of its line, or what goes on with an array or a table. -/
def EndsNumber (rest : List Char) : Prop :=
  ∀ c ∈ rest.head?, c ∈ [' ', '\t', '\n', '\r', '#', ',', ']', '\x7d']

/-- Digits as they are written, perhaps with an underscore between two of them. -/
inductive Spaced (isDigit : Char → Bool) : List Char → List Char → Prop where
  | last {c : Char} (hc : isDigit c = true) : Spaced isDigit [c] [c]
  | next {c : Char} {text digits : List Char} (hc : isDigit c = true) (h : Spaced isDigit text digits) :
    Spaced isDigit (c :: text) (c :: digits)
  | apart {c : Char} {text digits : List Char} (hc : isDigit c = true) (h : Spaced isDigit text digits) :
    Spaced isDigit (c :: '_' :: text) (c :: digits)

/-- The sign of a number, if it has one. -/
inductive IsSign : Bool → List Char → Prop where
  | absent : IsSign false []
  | plus : IsSign false ['+']
  | minus : IsSign true ['-']

/-- The digits before the point: no zero stands in front of others. -/
inductive IsWhole : List Char → List Char → Prop where
  | zero : IsWhole ['0'] ['0']
  | other {text digits : List Char} (h : Spaced Char.isDigit text digits) (hzero : text.head? ≠ some '0') :
    IsWhole text digits

/-- The digits after the point, if there is one. -/
inductive IsFraction : List Char → List Char → Prop where
  | absent : IsFraction [] []
  | present {text digits : List Char} (h : Spaced Char.isDigit text digits) : IsFraction ('.' :: text) digits

/-- A power of ten, if there is one. -/
inductive IsPower : Option Int → List Char → Prop where
  | absent : IsPower none []
  | present {negative : Bool} {c : Char} {mark text digits : List Char} (hc : c = 'e' ∨ c = 'E')
    (hsign : IsSign negative mark) (h : Spaced Char.isDigit text digits) :
    IsPower (some (if negative then -digitsValue digits else digitsValue digits)) (c :: (mark ++ text))

/-- An integer: in base ten with a sign, or in one of the other bases without one. -/
inductive IsInteger : List Char → Int → Prop where
  | decimal {negative : Bool} {mark text digits : List Char} (hsign : IsSign negative mark)
    (hwhole : IsWhole text digits) :
    IsInteger (mark ++ text) (if negative then -digitsValue digits else digitsValue digits)
  | radix {c : Char} {radix : Nat} {text digits : List Char} (hradix : radixOf? c = some radix)
    (h : Spaced (digitsIn radix) text digits) : IsInteger ('0' :: c :: text) (valueIn radix digits)

/-- A float: digits with a fraction, a power of ten or both, or a word. -/
inductive IsFloat : List Char → Binary64 → Prop where
  | numeral {negative : Bool} {mark whole digits behind fraction exponent : List Char} {power : Option Int}
    (hsign : IsSign negative mark) (hwhole : IsWhole whole digits) (hfraction : IsFraction behind fraction)
    (hpower : IsPower power exponent) (hmarked : fraction ≠ [] ∨ power ≠ none) :
    IsFloat (mark ++ (whole ++ (behind ++ exponent)))
      (Numeral.toBinary64 ⟨negative, digits, fraction, power.getD 0⟩)
  | infinite {negative : Bool} {mark : List Char} (hsign : IsSign negative mark) :
    IsFloat (mark ++ ['i', 'n', 'f']) (.infinite negative)
  | nan {negative : Bool} {mark : List Char} (hsign : IsSign negative mark) : IsFloat (mark ++ ['n', 'a', 'n']) .nan

/-! ## Digits -/

section Digits

variable {negative : Bool} {isDigit : Char → Bool} {mark text digits rest : List Char}

theorem EndsNumber.head {p : Char → Prop} [DecidablePred p] (h : EndsNumber rest)
    (hall : [' ', '\t', '\n', '\r', '#', ',', ']', '\x7d'].all (fun c => decide (p c)) = true) :
    ∀ c ∈ rest.head?, p c :=
  fun c hc => of_decide_eq_true (List.all_eq_true.1 hall c (h c hc))

theorem Spaced.exists_cons (h : Spaced isDigit text digits) : ∃ c r, text = c :: r ∧ isDigit c = true := by
  cases h with
  | last hc | next hc | apart hc => exact ⟨_, _, rfl, hc⟩

theorem digitRun_of_spaced (h : Spaced isDigit text digits) (hmark : isDigit '_' = false)
    (hrest : ∀ c ∈ rest.head?, isDigit c = false ∧ c ≠ '_') :
    digitRun isDigit (text ++ rest) = (digits, rest) := by
  induction h with
  | last hc => exact digitRun_append (List.forall_mem_singleton.2 hc) hrest
  | next hc h ih => simp [digitRun, hc, ih]
  | apart hc h ih =>
    obtain ⟨d, r, rfl, hd⟩ := h.exists_cons
    have hbehind : digitRun isDigit ('_' :: d :: (r ++ rest)) = digitRun isDigit (d :: (r ++ rest)) := by
      rw [digitRun.eq_def isDigit ('_' :: _)]
      simp [hmark, hd]
    rw [List.cons_append, ← hbehind] at ih
    simp [digitRun.eq_def isDigit (_ :: '_' :: _), hc, ih]

theorem digits_of_spaced (h : Spaced isDigit text digits) (hmark : isDigit '_' = false)
    (hrest : ∀ c ∈ rest.head?, isDigit c = false ∧ c ≠ '_') :
    Toml.digits isDigit (text ++ rest) = some (digits, rest) := by
  have hrun := digitRun_of_spaced h hmark hrest
  obtain ⟨c, r, rfl, hc⟩ := h.exists_cons
  rw [List.cons_append] at hrun ⊢
  rw [Toml.digits, if_pos hc, hrun]

/-- A digit at the front is no sign. -/
theorem ne_sign_of_digit {c : Char} (hc : c.isDigit = true) (s : List Char) :
    ∀ d ∈ (c :: s).head?, d ≠ '-' ∧ d ≠ '+' := by
  intro d hd
  cases hd
  constructor
  · rintro rfl
    cases hc
  · rintro rfl
    cases hc

theorem sign_of_isSign (h : IsSign negative mark) {s : List Char} (hs : ∀ c ∈ s.head?, c ≠ '-' ∧ c ≠ '+') :
    sign (mark ++ s) = (negative, s) := by
  cases h with
  | absent =>
    rw [List.nil_append]
    unfold sign
    split
    · exact absurd rfl (hs _ rfl).1
    · exact absurd rfl (hs _ rfl).2
    · rfl
  | plus => rfl
  | minus => rfl

theorem IsWhole.exists_cons (h : IsWhole text digits) : ∃ c r, text = c :: r ∧ c.isDigit = true := by
  cases h with
  | zero => exact ⟨'0', [], rfl, rfl⟩
  | other h => exact h.exists_cons

theorem wholeDigits_of_isWhole (h : IsWhole text digits) (hrest : ∀ c ∈ rest.head?, c.isDigit = false ∧ c ≠ '_') :
    wholeDigits (text ++ rest) = some (digits, rest) := by
  cases h with
  | zero => rfl
  | other h hzero =>
    have hdigits := digits_of_spaced h rfl hrest
    obtain ⟨c, r, rfl, -⟩ := h.exists_cons
    have hc : c ≠ '0' := fun hc => hzero (congrArg some hc)
    unfold wholeDigits
    split
    · rename_i hfirst
      exact absurd (List.cons.inj hfirst).1 hc
    · exact hdigits

theorem fraction_of_isFraction (h : IsFraction text digits)
    (hrest : ∀ c ∈ rest.head?, c.isDigit = false ∧ c ≠ '_' ∧ c ≠ '.') :
    fraction (text ++ rest) = some (digits, rest) := by
  cases h with
  | absent =>
    rw [List.nil_append]
    unfold fraction
    split
    · exact absurd rfl (hrest _ rfl).2.2
    · rfl
  | present h => exact digits_of_spaced h rfl fun c hc => ⟨(hrest c hc).1, (hrest c hc).2.1⟩

theorem exponent_of_isPower {power : Option Int} (h : IsPower power text) (hrest : EndsNumber rest) :
    exponent (text ++ rest) = some (power, rest) := by
  cases h with
  | absent =>
    have hmark : ∀ c ∈ rest.head?, ¬ (c = 'e' ∨ c = 'E') := hrest.head (by decide)
    cases rest with
    | nil => rfl
    | cons c r => exact if_neg (hmark c rfl)
  | @present negative c mark text digits hc hsign h =>
    have hdigits := digits_of_spaced h rfl (hrest.head (by decide))
    have hhead : ∀ c ∈ (text ++ rest).head?, c ≠ '-' ∧ c ≠ '+' := by
      obtain ⟨d, r, rfl, hd⟩ := h.exists_cons
      exact ne_sign_of_digit hd (r ++ rest)
    have hsign := sign_of_isSign hsign hhead
    rw [List.cons_append, List.append_assoc]
    simp only [exponent, if_pos hc, hsign, hdigits]

theorem IsFraction.head?_append {p : Char → Prop} (h : IsFraction text digits) (hpoint : p '.')
    (hrest : ∀ c ∈ rest.head?, p c) : ∀ c ∈ (text ++ rest).head?, p c := by
  cases h with
  | absent => exact hrest
  | present h =>
    intro c hc
    cases hc
    exact hpoint

theorem IsPower.head?_append {p : Char → Prop} {power : Option Int} (h : IsPower power text) (he : p 'e')
    (hE : p 'E') (hrest : ∀ c ∈ rest.head?, p c) : ∀ c ∈ (text ++ rest).head?, p c := by
  cases h with
  | absent => exact hrest
  | present hmark hsign h =>
    intro c hc
    cases hc
    rcases hmark with rfl | rfl
    · exact he
    · exact hE

end Digits

/-! ## Numbers in base ten -/

section Decimal

variable {negative : Bool} {mark whole digits behind fraction exponent rest : List Char} {power : Option Int}

/-- Only a zero without a sign goes before the letter of another base. -/
theorem radixInteger_of_isWhole (hsign : IsSign negative mark) (hwhole : IsWhole whole digits)
    (hrest : ∀ c ∈ rest.head?, radixOf? c = none) : radixInteger (mark ++ (whole ++ rest)) = none := by
  refine radixInteger_eq_none fun c r hs => ?_
  cases hsign with
  | absent =>
    cases hwhole with
    | zero =>
      have hbehind : rest = c :: r := (List.cons.inj hs).2
      exact hrest c (congrArg List.head? hbehind)
    | other h hzero =>
      obtain ⟨d, t, rfl, -⟩ := h.exists_cons
      exact absurd (congrArg some (List.cons.inj hs).1) hzero
  | plus => cases hs
  | minus => cases hs

/-- The parts of a number in base ten are told apart. -/
theorem found?_number (hsign : IsSign negative mark) (hwhole : IsWhole whole digits)
    (hfraction : IsFraction behind fraction) (hpower : IsPower power exponent) (hrest : EndsNumber rest) :
    number.found? (mark ++ (whole ++ (behind ++ (exponent ++ rest)))) =
      (decimalValue? negative digits fraction power).map fun v => (v, rest) := by
  have hexponent := exponent_of_isPower hpower hrest
  have hfraction' : Toml.fraction (behind ++ (exponent ++ rest)) = some (fraction, exponent ++ rest) :=
    fraction_of_isFraction hfraction
      (hpower.head?_append (by decide) (by decide) (hrest.head (by decide)))
  have hwhole' : wholeDigits (whole ++ (behind ++ (exponent ++ rest))) =
      some (digits, behind ++ (exponent ++ rest)) :=
    wholeDigits_of_isWhole hwhole
      (hfraction.head?_append (by decide) (hpower.head?_append (by decide) (by decide) (hrest.head (by decide))))
  have hradix : radixInteger (mark ++ (whole ++ (behind ++ (exponent ++ rest)))) = none :=
    radixInteger_of_isWhole hsign hwhole
      (hfraction.head?_append rfl (hpower.head?_append rfl rfl (hrest.head (by decide))))
  rw [← found?_decimalNumber hwhole' hfraction' hexponent]
  obtain ⟨c, r, rfl, hc⟩ := hwhole.exists_cons
  have hhead : ∀ d ∈ (c :: r ++ (behind ++ (exponent ++ rest))).head?, d ≠ '-' ∧ d ≠ '+' :=
    ne_sign_of_digit hc _
  rw [found?_number_of_sign hradix (sign_of_isSign hsign hhead), List.cons_append, Reader.found?,
    signedNumber_of_digit hc]
  rfl

end Decimal

/-! ## All numbers -/

section Numbers

variable {text rest : List Char} {v : Value}

theorem integerValue?_eq_some {i : Int} : integerValue? i = some v ↔
    (-2 ^ 63 ≤ i ∧ i < 2 ^ 63) ∧ v = .integer (.ofInt i) := by
  unfold integerValue?
  rw [Option.ite_none_right_eq_some, Option.some.injEq, eq_comm (a := v)]
  norm_num

section Radix

variable {c : Char} {radix : Nat} {digits : List Char}

theorem radixOf?_eq_some (h : radixOf? c = some radix) :
    c = 'x' ∧ radix = 16 ∨ c = 'o' ∧ radix = 8 ∨ c = 'b' ∧ radix = 2 := by
  unfold radixOf? at h
  split at h
  · exact .inl ⟨rfl, (Option.some.inj h).symm⟩
  · exact .inr (.inl ⟨rfl, (Option.some.inj h).symm⟩)
  · exact .inr (.inr ⟨rfl, (Option.some.inj h).symm⟩)
  · cases h

theorem found?_radixInteger (hradix : radixOf? c = some radix) (h : Spaced (digitsIn radix) text digits)
    (hrest : EndsNumber rest) : radixInteger.found? ('0' :: c :: (text ++ rest)) =
      (integerValue? (valueIn radix digits)).map fun v => (v, rest) := by
  have hdigits : Toml.digits (digitsIn radix) (text ++ rest) = some (digits, rest) := by
    rcases radixOf?_eq_some hradix with ⟨-, rfl⟩ | ⟨-, rfl⟩ | ⟨-, rfl⟩
    all_goals exact digits_of_spaced h (by decide) (hrest.head (by decide))
  rw [Reader.found?, radixInteger]
  split
  · rename_i hnone
    cases hnone.symm.trans hradix
  · rename_i hsome
    cases hsome.symm.trans hradix
    split
    · rename_i hnone
      cases hnone.symm.trans hdigits
    · rename_i hsome
      cases hsome.symm.trans hdigits
      rw [Option.map_map]
      rfl

/-- If a number in another base has too many bits, only its zero is taken. -/
theorem found?_number_of_radix (hradix : radixOf? c = some radix) {s : List Char}
    (hnone : radixInteger ('0' :: c :: s) = none) :
    number.found? ('0' :: c :: s) = (decimalValue? false ['0'] [] none).map fun v => (v, c :: s) := by
  have hc : c ≠ '.' ∧ c ≠ 'e' ∧ c ≠ 'E' := by
    rcases radixOf?_eq_some hradix with ⟨rfl, -⟩ | ⟨rfl, -⟩ | ⟨rfl, -⟩
    all_goals decide
  have hfraction : fraction (c :: s) = some ([], c :: s) := by
    simp [fraction, hc.1]
  have hexponent : exponent (c :: s) = some (none, c :: s) := by
    simp [exponent, hc.2]
  have hwhole : wholeDigits ('0' :: c :: s) = some (['0'], c :: s) := rfl
  rw [found?_number_of_sign hnone rfl, ← found?_decimalNumber hwhole hfraction hexponent]
  rfl

/-- A number in another base is taken whole only if it fits. -/
theorem takes_radix (hradix : radixOf? c = some radix) (h : Spaced (digitsIn radix) text digits)
    (hrest : EndsNumber rest) (htakes : number.Takes ('0' :: c :: text ++ rest) v rest) :
    integerValue? (valueIn radix digits) = some v := by
  have hfound := found?_radixInteger hradix h hrest
  rw [Reader.takes_iff] at htakes
  cases hread : radixInteger ('0' :: c :: (text ++ rest)) with
  | none =>
    obtain ⟨w, -, heq⟩ := Option.map_eq_some_iff.1 ((found?_number_of_radix hradix hread).symm.trans htakes)
    have hlength := congrArg List.length (Prod.mk.inj heq).2
    simp only [List.length_cons, List.length_append] at hlength
    omega
  | some read =>
    have hnumber : number.found? ('0' :: c :: (text ++ rest)) =
        radixInteger.found? ('0' :: c :: (text ++ rest)) := by
      rw [Reader.found?, Reader.found?, number, hread]
    obtain ⟨w, hw, heq⟩ := Option.map_eq_some_iff.1 (hfound.symm.trans (hnumber.symm.trans htakes))
    cases heq
    exact hw

end Radix

theorem takes_integer {i : Int} (h : IsInteger text i) (hrest : EndsNumber rest)
    (htakes : number.Takes (text ++ rest) v rest) : integerValue? i = some v := by
  cases h with
  | decimal hsign hwhole =>
    rw [Reader.takes_iff, List.append_assoc] at htakes
    have hfound := found?_number hsign hwhole .absent .absent hrest
    obtain ⟨w, hw, heq⟩ := Option.map_eq_some_iff.1 (hfound.symm.trans htakes)
    cases heq
    exact hw
  | radix hradix h => exact takes_radix hradix h hrest htakes

theorem floatValue?_eq_some {x : Binary64} (h : floatValue? x = some v) : v = .float x := by
  unfold floatValue? at h
  split at h
  · cases h
  · exact (Option.some.inj h).symm

/-- The words for what is no finite number may have a sign. -/
theorem takes_float_word {negative : Bool} {mark s : List Char} {c : Char} {w : Value}
    (hsign : IsSign negative mark) (hc : c ≠ '-' ∧ c ≠ '+' ∧ c ≠ '0')
    (hword : (signedNumber negative).Takes (c :: s) w rest) (htakes : number.Takes (mark ++ c :: s) v rest) :
    v = w := by
  have hradix : radixInteger (mark ++ c :: s) = none := by
    refine radixInteger_eq_none fun d r hs => ?_
    cases hsign with
    | absent => exact absurd (List.cons.inj hs).1 hc.2.2
    | plus => cases hs
    | minus => cases hs
  have hsign' : sign (mark ++ c :: s) = (negative, c :: s) := by
    refine sign_of_isSign hsign fun d hd => ?_
    cases hd
    exact ⟨hc.1, hc.2.1⟩
  have hfound := found?_number_of_sign hradix hsign'
  rw [Reader.takes_iff] at htakes hword
  rw [htakes, hword] at hfound
  exact (Prod.mk.inj (Option.some.inj hfound)).1

theorem takes_float {x : Binary64} (h : IsFloat text x) (hrest : EndsNumber rest)
    (htakes : number.Takes (text ++ rest) v rest) : v = .float x := by
  cases h with
  | numeral hsign hwhole hfraction hpower hmarked =>
    rw [Reader.takes_iff] at htakes
    simp only [List.append_assoc] at htakes
    obtain ⟨w, hw, heq⟩ := Option.map_eq_some_iff.1
      ((found?_number hsign hwhole hfraction hpower hrest).symm.trans htakes)
    cases heq
    have hmark : ¬ (_ ∧ _) := fun h => hmarked.elim (fun hne => hne (List.isEmpty_iff.1 h.1))
      fun hne => hne (Option.isNone_iff_eq_none.1 h.2)
    rw [decimalValue?, if_neg hmark] at hw
    exact floatValue?_eq_some hw
  | infinite hsign =>
    rw [List.append_assoc] at htakes
    exact takes_float_word hsign (by decide) (takes_word 'i' ['n', 'f'] rest _) htakes
  | nan hsign =>
    rw [List.append_assoc] at htakes
    exact takes_float_word hsign (by decide) (takes_word 'n' ['a', 'n'] rest _) htakes

/-! ## Values -/

/-- The text begins with a digit, a sign or a word for what is no finite number. -/
def StartsNumber (s : List Char) : Prop :=
  ∃ c r, s = c :: r ∧ (c.isDigit = true ∨ c ∈ ['-', '+', 'i', 'n'])

theorem takes_number_of_takes_value {depth : Nat} {s : List Char} (hs : StartsNumber s)
    (htakes : (value depth).Takes s (.value v) rest) : number.Takes s v rest := by
  obtain ⟨c, r, rfl, hc⟩ := hs
  obtain ⟨read, hread, hvalue, hrest⟩ := htakes
  rw [value_of_start depth hc] at hread
  cases hdate : dateTime (c :: r) with
  | some date =>
    rw [hdate] at hread
    cases hread
    cases hvalue
  | none =>
    rw [hdate] at hread
    obtain ⟨found, hfound, rfl⟩ := Option.map_eq_some_iff.1 hread
    cases hvalue
    exact ⟨found, hfound, rfl, hrest⟩

theorem IsSign.startsNumber {negative : Bool} {mark s : List Char} (hsign : IsSign negative mark)
    (hs : StartsNumber s) : StartsNumber (mark ++ s) := by
  cases hsign with
  | absent => exact hs
  | plus => exact ⟨_, _, rfl, .inr (by decide)⟩
  | minus => exact ⟨_, _, rfl, .inr (by decide)⟩

theorem IsWhole.startsNumber {whole digits : List Char} (h : IsWhole whole digits) (s : List Char) :
    StartsNumber (whole ++ s) := by
  obtain ⟨c, r, rfl, hc⟩ := h.exists_cons
  exact ⟨c, r ++ s, rfl, .inl hc⟩

/-- An integer that is read as a value has 64 bits and a sign, and is that integer. -/
theorem value_of_isInteger {depth : Nat} {i : Int} (h : IsInteger text i) (hrest : EndsNumber rest)
    (htakes : (value depth).Takes (text ++ rest) (.value v) rest) :
    (-2 ^ 63 ≤ i ∧ i < 2 ^ 63) ∧ v = .integer (.ofInt i) := by
  have hstart : StartsNumber (text ++ rest) := by
    cases h with
    | decimal hsign hwhole =>
      rw [List.append_assoc]
      exact hsign.startsNumber (hwhole.startsNumber _)
    | radix => exact ⟨_, _, rfl, .inl rfl⟩
  exact integerValue?_eq_some.1 (takes_integer h hrest (takes_number_of_takes_value hstart htakes))

example : (value 0).Takes ['0', 'x', 'f', '_', 'F', ' '] (.value (.integer 255)) [' '] := ⟨_, rfl, rfl, rfl⟩

/-- A float that is read as a value is that number. -/
theorem value_of_isFloat {depth : Nat} {x : Binary64} (h : IsFloat text x) (hrest : EndsNumber rest)
    (htakes : (value depth).Takes (text ++ rest) (.value v) rest) : v = .float x := by
  have hstart : StartsNumber (text ++ rest) := by
    cases h with
    | numeral hsign hwhole =>
      rw [List.append_assoc, List.append_assoc]
      exact hsign.startsNumber (hwhole.startsNumber _)
    | infinite hsign | nan hsign =>
      rw [List.append_assoc]
      exact hsign.startsNumber ⟨_, _, rfl, .inr (by decide)⟩
  exact takes_float h hrest (takes_number_of_takes_value hstart htakes)

end Numbers

end ModelBinding.Toml
