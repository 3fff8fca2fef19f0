import ModelBinding.Proofs.Context.Scalars
import ModelBinding.Proofs.Literal.Integers

/-!
# The form of a number literal

An integer type has decimals for literals. A literal of a floating point type is the expression of an
infinity, or a numeral that a fraction or an exponent tells from an integer, with the suffix of its type.
-/
namespace ModelBinding

/-! ## Numerals -/

/-- Decimal digits, at least one of them. -/
def IsDigits (s : List Char) : Prop := s ≠ [] ∧ AllDigits s

/-- A minus may go before what has the property. -/
inductive Signed (p : List Char → Prop) : List Char → Prop where
  | plain {s : List Char} (h : p s) : Signed p s
  | minus {s : List Char} (h : p s) : Signed p ('-' :: s)

/-- Digits with a point and digits, with an exponent, or with both. -/
inductive IsNumeral : List Char → Prop where
  | pointed {whole fraction : List Char} (hwhole : IsDigits whole) (hfraction : IsDigits fraction) :
    IsNumeral (whole ++ '.' :: fraction)
  | scaled {whole power : List Char} (hwhole : IsDigits whole) (hpower : Signed IsDigits power) :
    IsNumeral (whole ++ 'e' :: power)
  | both {whole fraction power : List Char} (hwhole : IsDigits whole) (hfraction : IsDigits fraction)
    (hpower : Signed IsDigits power) : IsNumeral (whole ++ '.' :: fraction ++ 'e' :: power)

theorem Signed.ne_nil {p : List Char → Prop} (h : ¬ p []) {s : List Char} (hs : Signed p s) : s ≠ [] := by
  cases hs with
  | plain hs =>
    rintro rfl
    exact h hs
  | minus hs => exact List.cons_ne_nil _ _

/-- The characters of numerals and of the suffixes that follow them. -/
def IsNumeralChar (c : Char) : Prop := c.isDigit = true ∨ c ∈ ['-', '.', 'e', 'F']

instance (c : Char) : Decidable (IsNumeralChar c) := inferInstanceAs (Decidable (_ ∨ _))

theorem IsDigits.chars {s : List Char} (h : IsDigits s) : ∀ c ∈ s, IsNumeralChar c :=
  fun c hc => .inl (h.2 c hc)

theorem Signed.chars {p : List Char → Prop} (h : ∀ s, p s → ∀ c ∈ s, IsNumeralChar c) {s : List Char}
    (hs : Signed p s) : ∀ c ∈ s, IsNumeralChar c := by
  cases hs with
  | plain hs => exact h _ hs
  | minus hs => exact List.forall_mem_cons.2 ⟨by decide, h _ hs⟩

theorem IsNumeral.chars {s : List Char} (h : IsNumeral s) : ∀ c ∈ s, IsNumeralChar c := by
  cases h with
  | pointed hwhole hfraction =>
    exact List.forall_mem_append.2 ⟨hwhole.chars, List.forall_mem_cons.2 ⟨by decide, hfraction.chars⟩⟩
  | scaled hwhole hpower =>
    exact List.forall_mem_append.2 ⟨hwhole.chars,
      List.forall_mem_cons.2 ⟨by decide, hpower.chars fun _ => IsDigits.chars⟩⟩
  | both hwhole hfraction hpower =>
    refine List.forall_mem_append.2 ⟨List.forall_mem_append.2 ⟨hwhole.chars, ?_⟩, ?_⟩
    · exact List.forall_mem_cons.2 ⟨by decide, hfraction.chars⟩
    · exact List.forall_mem_cons.2 ⟨by decide, hpower.chars fun _ => IsDigits.chars⟩

/-- Something in a numeral is neither a sign nor a digit. -/
theorem IsNumeral.exists_mark {s : List Char} (h : IsNumeral s) : ∃ c ∈ s, c ≠ '-' ∧ c.isDigit = false := by
  cases h with
  | pointed => exact ⟨'.', by simp, by decide⟩
  | scaled => exact ⟨'e', by simp, by decide⟩
  | both => exact ⟨'e', by simp, by decide⟩

theorem not_isNumeral_nil : ¬ IsNumeral [] := by
  intro h
  obtain ⟨c, hc, -⟩ := h.exists_mark
  cases hc

/-- Digits with a sign are no numeral. -/
theorem not_signed_isNumeral {digits body : List Char} (hdigits : AllDigits digits)
    (hbody : Signed (· = digits) body) : ¬ Signed IsNumeral body := by
  have hchars : ∀ c ∈ body, c ≠ '-' → c.isDigit = true := by
    cases hbody with
    | plain h => exact fun c hc _ => hdigits c (h ▸ hc)
    | minus h =>
      intro c hc hne
      rcases List.mem_cons.1 hc with rfl | hc
      · exact absurd rfl hne
      · exact hdigits c (h ▸ hc)
  have hmark : ∀ s, IsNumeral s → s ⊆ body → False := by
    intro s hs hsub
    obtain ⟨c, hc, hne, hdigit⟩ := hs.exists_mark
    cases (hchars c (hsub hc) hne).symm.trans hdigit
  intro h
  cases h with
  | plain h => exact hmark _ h (List.Subset.refl _)
  | minus h => exact hmark _ h (List.subset_cons_self _ _)

/-! ## The texts of doubles -/

namespace NumberLayout

variable {layout : NumberLayout}

theorem signed_exponentPart (hsign : layout.plusSign = false) (exponent : Int) :
    ∃ power, layout.exponentPart exponent = 'e' :: power ∧ Signed IsDigits power := by
  have hdigits : IsDigits (Nat.toDigits 10 exponent.natAbs) := ⟨Nat.toDigits_ne_nil, allDigits_toDigits _⟩
  unfold exponentPart
  rw [hsign]
  by_cases hneg : exponent < 0
  · exact ⟨_, by rw [if_pos hneg]; rfl, .minus hdigits⟩
  · exact ⟨_, by rw [if_neg hneg]; rfl, .plain hdigits⟩

end NumberLayout

theorem NumeralParts.WellFormed.isNumeral {layout : NumberLayout} (hsign : layout.plusSign = false)
    {parts : NumeralParts} (h : parts.WellFormed) : IsNumeral (parts.text layout) := by
  have hwhole : IsDigits parts.whole := ⟨h.whole_ne_nil, h.whole_digits⟩
  unfold text
  by_cases hfraction : parts.fraction = []
  · obtain ⟨exponent, hexponent⟩ := Option.ne_none_iff_exists'.1 (h.marked hfraction)
    obtain ⟨power, htext, hpower⟩ := NumberLayout.signed_exponentPart hsign exponent
    rw [hfraction, hexponent, Option.map_some, Option.getD_some, htext]
    exact .scaled hwhole hpower
  · have hdigits : IsDigits parts.fraction := ⟨hfraction, h.fraction_digits⟩
    rw [fractionText_of_ne_nil hfraction]
    cases hexponent : parts.power with
    | none =>
      rw [Option.map_none, Option.getD_none, List.append_nil]
      exact .pointed hwhole hdigits
    | some exponent =>
      obtain ⟨power, htext, hpower⟩ := NumberLayout.signed_exponentPart hsign exponent
      rw [Option.map_some, Option.getD_some, htext, ← List.append_assoc]
      exact .both hwhole hdigits hpower

/-- A finite number is written as a numeral. -/
theorem Binary64.signed_text {layout : NumberLayout} (hpoint : layout.pointZero = true)
    (hsign : layout.plusSign = false) (negative : Bool) (rank : Fin finiteCount) :
    Signed IsNumeral ((finite negative rank).text layout).toList := by
  have hnumeral := (layout.wellFormed_parts (shortest layout.tie rank)).isNumeral hsign
  rw [NumberLayout.toList_text_finite hpoint]
  cases negative with
  | false => exact .plain hnumeral
  | true => exact .minus hnumeral

/-! ## Scalars -/

namespace Scalar

/-- Where scalars come from: a document, or a number of another type. -/
inductive Obtained : Scalar → Prop where
  | document {v : Value} {s : Scalar} (h : decode v = .ok s) : Obtained s
  | int64 (i : Int64) : Obtained (.ofInt64 i)
  | uint64 (n : UInt64) : Obtained (.ofUInt64 n)
  | binary64 (x : Binary64) : Obtained (.ofBinary64 x)
  | infinity (negative : Bool) : Obtained (.infinity negative)

theorem Obtained.canonical {s : Scalar} (h : s.Obtained) : s.Canonical := by
  cases h with
  | document h => exact (fitsIn_of_decode h).1
  | int64 i => trivial
  | uint64 n => exact canonical_ofUInt64 n
  | binary64 x => exact canonical_ofBinary64 x
  | infinity negative => trivial

/-- The sign of an infinity, whatever its form. -/
def infinite? : Scalar → Option Bool
  | .infinity negative | .float (.infinite negative) => some negative
  | _ => none

/-- The double that is written for the scalar, if it is not written as an infinity. -/
def double? : Scalar → Option Binary64
  | .int i => some (.ofInt i.toInt)
  | .uint n => some (.ofInt n.toNat)
  | .float x => some x
  | .infinity _ => none

/-- Of a scalar that is no infinity the double is finite, or no number. -/
theorem Obtained.double?_cases {s : Scalar} (h : s.Obtained) {x : Binary64} (hx : s.double? = some x) :
    s.infinite? = none ∧ (x = .nan ∨ ∃ negative rank, x = .finite negative rank) := by
  cases s with
  | int i =>
    obtain rfl : Binary64.ofInt i.toInt = x := Option.some.inj hx
    refine ⟨rfl, .inr (Binary64.finite_ofInt ?_)⟩
    have hle := i.le_toInt
    have hlt := i.toInt_lt
    omega
  | uint n =>
    obtain rfl : Binary64.ofInt n.toNat = x := Option.some.inj hx
    exact ⟨rfl, .inr (Binary64.finite_ofInt n.toNat_lt)⟩
  | float y =>
    cases hx
    cases x with
    | nan => exact ⟨rfl, .inl rfl⟩
    | infinite negative => exact absurd rfl (h.canonical negative)
    | finite negative rank => exact ⟨rfl, .inr ⟨negative, rank, rfl⟩⟩
  | infinity negative => cases hx

end Scalar

/-! ## Literals -/

theorem ElementType.isInteger_eq_true {type : ElementType} : type.isInteger = true ↔ type.isFloat = false := by
  rw [isInteger, Bool.not_eq_true']

namespace Literal

variable {value : Scalar} {type : ElementType} {text : String}

theorem floating_eq_ok (htype : type.isFloat = true) : floating value type = .ok text ↔
    (∃ negative, value = .infinity negative ∧ text = infinity negative type) ∨
    ∃ x, value.double? = some x ∧ x ≠ .nan ∧ text = x.text Scalar.numbers ++ type.suffix := by
  have hdouble : ∀ x, double x type = .ok text ↔ x ≠ .nan ∧ text = x.text Scalar.numbers ++ type.suffix := by
    intro x
    cases x with
    | nan => simp [double, Binary64.isNan]
    | infinite negative => simp [double, Binary64.isNan, eq_comm]
    | finite negative rank => simp [double, Binary64.isNan, eq_comm]
  unfold floating
  rw [if_pos htype]
  cases value with
  | infinity negative => simp [Scalar.double?, eq_comm]
  | _ => simp [Scalar.double?, hdouble]

theorem number_of_isFloat (htype : type.isFloat = true) : number value type = floating value type := by
  rw [number, ElementType.isInteger, htype]
  rfl

/-- A literal is a decimal, the expression of an infinity or the text of a double with a suffix. -/
theorem number_cases (h : number value type = .ok text) :
    (type.isInteger = true ∧ ∃ i : Int, type.Represents i ∧ IsDecimal text i) ∨
    (type.isFloat = true ∧ ∃ negative, value = .infinity negative ∧ text = infinity negative type) ∨
    (type.isFloat = true ∧ ∃ x, value.double? = some x ∧ x ≠ .nan ∧
      text = x.text Scalar.numbers ++ type.suffix) := by
  cases hfloat : type.isFloat with
  | true =>
    rw [number_of_isFloat hfloat, floating_eq_ok hfloat] at h
    rcases h with h | h
    · exact .inr (.inl ⟨rfl, h⟩)
    · exact .inr (.inr ⟨rfl, h⟩)
  | false =>
    have hinteger := ElementType.isInteger_eq_true.2 hfloat
    rw [number, if_pos hinteger, integer_eq_ok] at h
    obtain ⟨i, -, hi, htext⟩ := h
    exact .inl ⟨hinteger, i, hi, htext⟩

/-- A literal of a floating point type is the expression of an infinity or a numeral. -/
theorem number_forms (hvalue : value.Obtained) (htype : type.isFloat = true)
    (h : number value type = .ok text) :
    (∃ negative, value.infinite? = some negative ∧ text = infinity negative type) ∨
    (value.infinite? = none ∧ ∃ body, Signed IsNumeral body ∧ text.toList = body ++ type.suffix.toList) := by
  rw [number_of_isFloat htype, floating_eq_ok htype] at h
  rcases h with ⟨negative, rfl, htext⟩ | ⟨x, hx, hnan, rfl⟩
  · exact .inl ⟨negative, rfl, htext⟩
  · obtain ⟨hinfinite, rfl | ⟨negative, rank, rfl⟩⟩ := hvalue.double?_cases hx
    · exact absurd rfl hnan
    · exact .inr ⟨hinfinite, _, Binary64.signed_text rfl rfl negative rank, String.toList_append⟩

theorem suffix_chars (type : ElementType) : ∀ c ∈ type.suffix.toList, IsNumeralChar c := by
  cases type with
  | float32 => exact List.forall_mem_singleton.2 (by decide)
  | _ => exact List.forall_mem_nil _

theorem body_chars {body : List Char} (h : Signed IsNumeral body) :
    ∀ c ∈ body ++ type.suffix.toList, IsNumeralChar c :=
  List.forall_mem_append.2 ⟨h.chars fun _ => IsNumeral.chars, suffix_chars type⟩

theorem toList_infinity (negative : Bool) (type : ElementType) : (infinity negative type).toList =
    (if negative then ['-'] else []) ++ "std::numeric_limits<".toList ++ type.codeName.toList ++
      ">::infinity()".toList := by
  rw [infinity, String.toList_append, String.toList_append, String.toList_append]
  cases negative <;> rfl

theorem infinity_injective {negative other : Bool}
    (h : infinity negative type = infinity other type) : negative = other := by
  have hlength := congrArg (fun text => text.toList.length) h
  simp only [toList_infinity, List.length_append, Nat.add_right_cancel_iff] at hlength
  cases negative <;> cases other <;> trivial

/-- Only the expression of an infinity has a colon. -/
theorem colon_mem_infinity (negative : Bool) (type : ElementType) : ':' ∈ (infinity negative type).toList := by
  simp [toList_infinity]

theorem infinity_chars (negative : Bool) (type : ElementType) :
    ∀ c ∈ (infinity negative type).toList, c ∉ [',', ' ', '\x7b', '\x7d', 'N'] := by
  have hall : (infinity negative type).toList.all
      (fun c => decide (c ∉ [',', ' ', '\x7b', '\x7d', 'N'])) = true := by
    rw [toList_infinity]
    cases type <;> simp only [ElementType.codeName, String.reduceToList] <;> cases negative <;> decide
  exact fun c hc => of_decide_eq_true (List.all_eq_true.1 hall c hc)

/-- Wherever `inf` stands in the expression of an infinity, `infinity` does. -/
theorem infinity_words (negative : Bool) (type : ElementType) {rest : List Char}
    (hrest : rest <:+ (infinity negative type).toList) (hinf : "inf".toList <+: rest) :
    "infinity".toList <+: rest := by
  have hall : (infinity negative type).toList.tails.all (fun rest =>
      !"inf".toList.isPrefixOf rest || "infinity".toList.isPrefixOf rest) = true := by
    rw [toList_infinity]
    cases type <;> simp only [ElementType.codeName, String.reduceToList] <;> cases negative <;> decide
  have h := List.all_eq_true.1 hall rest ((List.mem_tails _ _).2 hrest)
  rw [List.isPrefixOf_iff_prefix.2 hinf] at h
  exact List.isPrefixOf_iff_prefix.1 h

theorem decimal_chars {i : Int} (h : IsDecimal text i) : ∀ c ∈ text.toList, IsNumeralChar c := by
  obtain ⟨digits, htext, -, hdigits, -⟩ := h
  rw [htext]
  split_ifs with hneg
  · exact List.forall_mem_cons.2 ⟨by decide, fun c hc => .inl (hdigits c hc)⟩
  · exact fun c hc => .inl (hdigits c hc)

/-- No character of a numeral is one of these. -/
theorem not_isNumeralChar : ∀ c ∈ [',', ' ', '\x7b', '\x7d', 'N', 'i', ':'], ¬ IsNumeralChar c := by
  simp [IsNumeralChar]

/-- A literal is the expression of an infinity, or all its characters are those of numerals. -/
theorem number_chars (hvalue : value.Obtained) (h : number value type = .ok text) :
    (∃ negative, text = infinity negative type) ∨ ∀ c ∈ text.toList, IsNumeralChar c := by
  rcases number_cases h with ⟨-, i, -, hdecimal⟩ | ⟨hfloat, -⟩ | ⟨hfloat, -⟩
  · exact .inr (decimal_chars hdecimal)
  all_goals
    rcases number_forms hvalue hfloat h with ⟨negative, -, htext⟩ | ⟨-, body, hbody, htext⟩
    · exact .inl ⟨negative, htext⟩
    · exact .inr (htext ▸ body_chars hbody)

theorem notMem_of_number (hvalue : value.Obtained) (h : number value type = .ok text) :
    ∀ c ∈ text.toList, c ∉ [',', ' ', '\x7b', '\x7d', 'N'] := by
  rcases number_chars hvalue h with ⟨negative, rfl⟩ | hchars
  · exact infinity_chars negative type
  · intro c hc hmem
    exact not_isNumeralChar c (List.mem_append_left ['i', ':'] hmem) (hchars c hc)

/-- Wherever `inf` stands in a literal, `infinity` does. -/
theorem infinity_of_number (hvalue : value.Obtained) (h : number value type = .ok text) {rest : List Char}
    (hrest : rest <:+ text.toList) (hinf : "inf".toList <+: rest) : "infinity".toList <+: rest := by
  rcases number_chars hvalue h with ⟨negative, rfl⟩ | hchars
  · exact infinity_words negative type hrest hinf
  · have hmem : 'i' ∈ text.toList := hrest.subset (hinf.subset (by decide))
    exact absurd (hchars _ hmem) (not_isNumeralChar 'i' (by decide))

/-- The suffix of a literal does not follow digits alone. -/
theorem not_signed_digits (hvalue : value.Obtained) (htype : type.isFloat = true)
    (h : number value type = .ok text) {digits : List Char} (hdigits : AllDigits digits) :
    ¬ Signed (· = digits ++ type.suffix.toList) text.toList := by
  intro hsigned
  rcases number_forms hvalue htype h with ⟨negative, -, rfl⟩ | ⟨-, body, hbody, htext⟩
  · have hchars : ∀ c ∈ digits ++ type.suffix.toList, IsNumeralChar c :=
      List.forall_mem_append.2 ⟨fun c hc => .inl (hdigits c hc), suffix_chars type⟩
    refine absurd (hsigned.chars ?_ _ (colon_mem_infinity negative type)) (by decide)
    rintro _ rfl
    exact hchars
  · refine not_signed_isNumeral hdigits ?_ hbody
    rw [htext] at hsigned
    generalize hs : body ++ type.suffix.toList = s at hsigned
    cases hsigned with
    | plain hdigits => exact .plain (List.append_cancel_right (hs.trans hdigits))
    | minus hdigits =>
      subst hdigits
      rw [← List.cons_append] at hs
      exact List.append_cancel_right hs ▸ .minus rfl

theorem infinite?_eq_some_iff (hvalue : value.Obtained) (htype : type.isFloat = true)
    (h : number value type = .ok text) {negative : Bool} :
    value.infinite? = some negative ↔ text = infinity negative type := by
  rcases number_forms hvalue htype h with ⟨other, hother, rfl⟩ | ⟨hfinite, body, hbody, htext⟩
  · rw [hother, Option.some.injEq]
    exact ⟨congrArg (infinity · type), infinity_injective⟩
  · refine iff_of_false (fun hinfinite => nomatch hfinite.symm.trans hinfinite) fun heq => ?_
    -- The expression has a colon, and no numeral has one.
    have hcolon := colon_mem_infinity negative type
    rw [← heq, htext] at hcolon
    exact absurd (body_chars hbody _ hcolon) (by decide)

/--
A literal of an integer type is the decimal of one of its integers. One of a floating point type is the
expression of an infinity, for infinite scalars only, or a numeral and the suffix of the type.
-/
theorem number_wellFormed (hvalue : value.Obtained) (h : number value type = .ok text) :
    (type.isInteger = true → ∃ i : Int, type.Represents i ∧ IsDecimal text i) ∧
    (type.isFloat = true →
      (∀ negative, value.infinite? = some negative ↔ text =
        (if negative then "-" else "") ++ "std::numeric_limits<" ++ type.codeName ++ ">::infinity()") ∧
      (value.infinite? = none → ∃ body, Signed IsNumeral body ∧ text.toList = body ++ type.suffix.toList) ∧
      ∀ digits, AllDigits digits → ¬ Signed (· = digits ++ type.suffix.toList) text.toList) ∧
    (∀ c ∈ text.toList, c ∉ [',', ' ', '\x7b', '\x7d']) ∧
    ¬ "NaN".toList <:+: text.toList ∧
    ∀ rest, rest <:+ text.toList → "inf".toList <+: rest → "infinity".toList <+: rest := by
  refine ⟨fun htype => ?_, fun htype => ⟨fun negative => infinite?_eq_some_iff hvalue htype h, fun hfinite => ?_,
    fun digits hdigits => not_signed_digits hvalue htype h hdigits⟩, ?_, ?_, ?_⟩
  · rw [number, if_pos htype, integer_eq_ok] at h
    obtain ⟨i, -, hi, hdecimal⟩ := h
    exact ⟨i, hi, hdecimal⟩
  · rcases number_forms hvalue htype h with ⟨negative, hinfinite, -⟩ | ⟨-, hbody⟩
    · cases hfinite.symm.trans hinfinite
    · exact hbody
  · exact fun c hc hmem => notMem_of_number hvalue h c hc (List.mem_append_left ['N'] hmem)
  · exact fun hnan => notMem_of_number hvalue h 'N' (hnan.subset (by decide)) (by decide)
  · exact fun rest hrest hinf => infinity_of_number hvalue h hrest hinf

/-- A small negative number, a quarter of a millionth. -/
def quarterMillionth : Binary64 := .ofDecimal true 25 (-8)

theorem number_wellFormed_quarterMillionth :
    (Scalar.ofBinary64 quarterMillionth).Obtained ∧
      number (.ofBinary64 quarterMillionth) .float32 = .ok "-2.5e-7F" ∧
      (Scalar.ofBinary64 quarterMillionth).infinite? = none ∧
      ∃ body, Signed IsNumeral body ∧ "-2.5e-7F".toList = body ++ "F".toList := by
  have hobtained : (Scalar.ofBinary64 quarterMillionth).Obtained := .binary64 quarterMillionth
  have hnumber : number (.ofBinary64 quarterMillionth) .float32 = .ok "-2.5e-7F" := by decide +kernel
  have hfinite : (Scalar.ofBinary64 quarterMillionth).infinite? = none := by decide +kernel
  exact ⟨hobtained, hnumber, hfinite, ((number_wellFormed hobtained hnumber).2.1 rfl).2.1 hfinite⟩

end Literal

end ModelBinding
