import ModelBinding.Document.Versioned
import ModelBinding.Proofs.Context.Scalars
import ModelBinding.Proofs.Json.Numerals
import ModelBinding.Proofs.Toml.Numerals

/-!
# The forms of scalars

Each number has one scalar, wherever the number comes from: an integer is signed where it fits and unsigned
above, a double is a float unless it is infinite, and infinities have a form of their own. So a scalar that is
a number is read back from its JSON text in the same form, a float as the number that the reader takes its
digits for, and different scalars have different texts.
-/
namespace ModelBinding

variable {rounding : Rounding}

/-- A number that a scalar can stand for. -/
inductive Quantity where
  | integer (i : Int)
  | double (x : Binary64)

namespace Quantity

/-- The scalar of a number: the form of an integer goes by its size, and that of a double does not. -/
inductive Stands : Quantity → Scalar → Prop where
  | int (i : Int64) : Stands (.integer i.toInt) (.int i)
  | uint {n : UInt64} (h : 2 ^ 63 ≤ n.toNat) : Stands (.integer n.toNat) (.uint n)
  | float {x : Binary64} (h : ∀ negative, x ≠ .infinite negative) : Stands (.double x) (.float x)
  | infinity (negative : Bool) : Stands (.double (.infinite negative)) (.infinity negative)

/--
The number of a numeral in JSON. Digits alone are an integer, but only one from -2^63 up to 2^64; any other,
and a zero with a minus, is the double that the reader finds.
-/
def ofNumeral (rounding : Rounding) (negative : Bool) (parts : NumeralParts) : Quantity :=
  let i : Int := if negative then -digitsValue parts.whole else digitsValue parts.whole
  if (parts.fraction = [] ∧ parts.power = none) ∧ ¬ (negative = true ∧ i = 0) ∧ -2 ^ 63 ≤ i ∧ i < 2 ^ 64 then
    .integer i
  else .double ((parts.numeral negative).rounded rounding)

/-- The number that a value of a document is. Infinities are numbers by their words too. -/
def ofValue? : Value → Option Quantity
  | .integer i => some (.integer i.toInt)
  | .unsigned n => some (.integer n.toNat)
  | .float x => some (.double x)
  | .text "inf" => some (.double (.infinite false))
  | .text "-inf" => some (.double (.infinite true))
  | _ => none

/-! ## Forms -/

theorem stands_ofUInt64 (n : UInt64) : Stands (.integer n.toNat) (.ofUInt64 n) := by
  unfold Scalar.ofUInt64
  split_ifs with h
  · rw [← toInt_toInt64_of_lt h]
    exact .int _
  · exact .uint (Nat.not_lt.1 h)

theorem stands_ofBinary64 (x : Binary64) : Stands (.double x) (.ofBinary64 x) := by
  cases x with
  | nan => exact .float fun negative h => nomatch h
  | infinite negative => exact .infinity negative
  | finite negative rank => exact .float fun negative h => nomatch h

/-- What is read is the scalar of the number that the value is. -/
theorem stands_of_decode {v : Value} {q : Quantity} {s : Scalar} (hv : ofValue? v = some q)
    (h : Scalar.decode v = .ok s) : q.Stands s := by
  unfold Scalar.decode at h
  split at h
  · cases hv
    cases h
    exact .int _
  · cases hv
    cases h
    exact stands_ofUInt64 _
  · cases hv
    cases h
    exact stands_ofBinary64 _
  · cases hv
    cases h
    exact .infinity false
  · cases hv
    cases h
    exact .infinity true
  · cases h

/-! ## Numerals -/

theorem rounded_of_digitsValue_eq_zero {digits : List Char} (h : digitsValue digits = 0) (negative : Bool) :
    Numeral.rounded rounding ⟨negative, digits, [], 0⟩ = .zero negative := by
  have hvalue : Numeral.toBinary64 ⟨negative, digits, [], 0⟩ = .zero negative := by
    rw [Numeral.toBinary64, List.append_nil, h, Binary64.ofDecimal_zero]
  cases rounding with
  | nearest => exact hvalue
  | bestEffort =>
    rw [← hvalue]
    refine Numeral.bestEffort_eq_toBinary64 ?_ (by simp) (by simp)
    rw [List.append_nil, h]
    norm_num

theorem ofValue?_integerValue (negative : Bool) {digits : List Char} :
    ofValue? (Json.integerValue rounding ⟨negative, digits, [], 0⟩) =
      some (ofNumeral rounding negative ⟨digits, [], none⟩) := by
  have hint : Numeral.toInt ⟨negative, digits, [], 0⟩ =
      if negative then -(digitsValue digits : Int) else digitsValue digits := rfl
  have hdouble : NumeralParts.numeral negative ⟨digits, [], none⟩ = ⟨negative, digits, [], 0⟩ := rfl
  unfold Json.integerValue ofNumeral
  rw [hint, hdouble]
  generalize hi : (if negative then -(digitsValue digits : Int) else digitsValue digits) = i
  dsimp only
  by_cases hzero : negative = true ∧ i = 0
  · have hdigits : digitsValue digits = 0 := by
      rw [hzero.1, hzero.2, if_pos rfl] at hi
      omega
    rw [if_pos hzero, if_neg fun h => h.2.1 hzero, rounded_of_digitsValue_eq_zero hdigits, hzero.1]
    rfl
  · rw [if_neg hzero]
    by_cases hsigned : -2 ^ 63 ≤ i ∧ i < 2 ^ 63
    · rw [if_pos (by omega), if_pos ⟨⟨rfl, rfl⟩, hzero, by omega⟩, ofValue?,
        Int64.toInt_ofInt_of_le hsigned.1 hsigned.2]
    · rw [if_neg (by omega)]
      by_cases hunsigned : 0 ≤ i ∧ i < 2 ^ 64
      · have hnat : ((UInt64.ofNat i.toNat).toNat : Int) = i := by
          have hlt : i.toNat < 2 ^ 64 := by omega
          rw [UInt64.toNat_ofNat_of_lt' hlt]
          omega
        rw [if_pos (by omega), if_pos ⟨⟨rfl, rfl⟩, hzero, by omega⟩, ofValue?, hnat]
      · rw [if_neg (by omega), if_neg fun h => by omega]
        rfl

theorem ofValue?_numeralValue (negative : Bool) (parts : NumeralParts) :
    ofValue? (Json.numeralValue rounding negative parts) = some (ofNumeral rounding negative parts) := by
  obtain ⟨whole, fraction, power⟩ := parts
  unfold Json.numeralValue
  by_cases hdigits : fraction = [] ∧ power = none
  · obtain ⟨rfl, rfl⟩ := hdigits
    rw [if_pos ⟨rfl, rfl⟩]
    exact ofValue?_integerValue negative
  · have hmark : ¬ (fraction.isEmpty = true ∧ power.isNone = true) := by
      rwa [List.isEmpty_iff, Option.isNone_iff_eq_none]
    rw [if_neg hmark, ofNumeral, if_neg fun h => hdigits h.1]
    rfl

/-- What is read from a numeral in JSON is the scalar of its number. -/
theorem stands_of_isNumber {depth : Nat} {negative : Bool} {parts : NumeralParts} {text rest : List Char}
    {v : Value} {s : Scalar} (hnumber : Json.IsNumber negative parts text) (hrest : Json.EndsNumber rest)
    (htakes : (Json.value rounding depth).Takes (text ++ rest) v rest) (h : Scalar.decode v = .ok s) :
    (ofNumeral rounding negative parts).Stands s := by
  rw [Reader.takes_iff, Json.value_of_isNumber hnumber rounding depth hrest] at htakes
  obtain ⟨w, hw, heq⟩ := Option.map_eq_some_iff.1 htakes
  cases heq
  rw [Json.eq_of_finite? hw] at h
  exact stands_of_decode (ofValue?_numeralValue negative parts) h

theorem stands_of_isInteger {depth : Nat} {i : Int} {text rest : List Char} {v : Value} {s : Scalar}
    (hnumber : Toml.IsInteger text i) (hrest : Toml.EndsNumber rest)
    (htakes : (Toml.value depth).Takes (text ++ rest) (.value v) rest) (h : Scalar.decode v = .ok s) :
    Stands (.integer i) s := by
  obtain ⟨⟨hle, hlt⟩, rfl⟩ := Toml.value_of_isInteger hnumber hrest htakes
  refine stands_of_decode ?_ h
  rw [ofValue?, Int64.toInt_ofInt_of_le hle hlt]

theorem stands_of_isFloat {depth : Nat} {x : Binary64} {text rest : List Char} {v : Value} {s : Scalar}
    (hnumber : Toml.IsFloat text x) (hrest : Toml.EndsNumber rest)
    (htakes : (Toml.value depth).Takes (text ++ rest) (.value v) rest) (h : Scalar.decode v = .ok s) :
    Stands (.double x) s := by
  rw [Toml.value_of_isFloat hnumber hrest htakes] at h
  exact stands_of_decode rfl h

end Quantity

/-! ## Texts -/

theorem Json.readText_eq_ok {α : Type} {decode : Decoder α} {text : String} {a : α} :
    readText decode text rounding = .ok a ↔ ∃ v, parse? text rounding = some v ∧ decode v = .ok a := by
  unfold readText parse
  cases parse? text rounding with
  | none => exact iff_of_false (fun h => nomatch h) fun ⟨v, hv, _⟩ => nomatch hv
  | some v =>
    change (decode v).mapError Error.json = .ok a ↔ _
    cases hdecode : decode v with
    | error fault => simp [Except.mapError, hdecode]
    | ok b => simp [Except.mapError, hdecode]

namespace Scalar

theorem Exact.legible {s : Scalar} (h : s.Exact) (depth : Nat) : s.toValue.Legible depth := by
  cases s with
  | int i => trivial
  | uint n => exact h.canonical
  | float x => exact h.eq_finite
  | infinity negative => trivial

theorem compactText_toValue (s : Scalar) : Json.compactText s.toValue = Json.spreadText s.toValue := by
  cases s with
  | _ => rfl

/-- A scalar that is a number is read back from its text in the same form. -/
theorem Exact.readText {s : Scalar} (h : s.Exact) (rounding : Rounding) :
    Json.readText decode (Json.compactText s.toValue) rounding = .ok (s.mapFloats (Json.reread rounding)) := by
  have hdecode : decode ((s.toValue.dumped .debug false).mapFloats (Json.reread rounding)) =
      .ok (s.mapFloats (Json.reread rounding)) :=
    @decode_shown (.dump .debug rounding) false s h.saidIn_dump
  have hsame : s.toValue.dumped .debug false = s.toValue := by
    cases s with
    | float x =>
      obtain ⟨negative, rank, rfl⟩ := h.eq_finite
      rfl
    | _ => rfl
  rw [hsame] at hdecode
  rw [compactText_toValue]
  exact Json.readText_eq_ok.2 ⟨_, Json.parse?_spreadText (h.legible Json.maxDepth), hdecode⟩

/-- Different scalars have different texts, since a reader that rounds to nearest tells them apart. -/
theorem Exact.eq_of_compactText {s t : Scalar} (hs : s.Exact) (ht : t.Exact)
    (h : Json.compactText s.toValue = Json.compactText t.toValue) : s = t := by
  have hsame : ∀ u : Scalar, u.mapFloats (Json.reread .nearest) = u :=
    fun u => mapFloats_eq_self_iff.2 fun x _ => Json.reread_nearest x
  have hread := hs.readText .nearest
  rw [h, ht.readText .nearest, hsame, hsame] at hread
  exact (Except.ok.inj hread).symm

/-- Null is no scalar. -/
theorem Exact.compactText_ne_null {s : Scalar} (h : s.Exact) : Json.compactText s.toValue ≠ "null" := by
  intro hnull
  have hread := h.readText .nearest
  rw [hnull] at hread
  cases hread

end Scalar

/-! ## Where scalars come from -/

/-- The scalar of a number of a document, of a word for an infinity or of a number of a program. -/
inductive Scalar.ObtainedFrom (rounding : Rounding) : Quantity → Scalar → Prop where
  /-- A JSON text that is a number. -/
  | jsonText {negative : Bool} {parts : NumeralParts} {text : String} {s : Scalar}
    (hnumber : Json.IsNumber negative parts text.toList)
    (h : Json.readText Scalar.decode text rounding = .ok s) :
    ObtainedFrom rounding (.ofNumeral rounding negative parts) s
  /-- A number that stands in a JSON text. -/
  | json {depth : Nat} {negative : Bool} {parts : NumeralParts} {text rest : List Char} {v : Value} {s : Scalar}
    (hnumber : Json.IsNumber negative parts text) (hrest : Json.EndsNumber rest)
    (htakes : (Json.value rounding depth).Takes (text ++ rest) v rest) (h : Scalar.decode v = .ok s) :
    ObtainedFrom rounding (.ofNumeral rounding negative parts) s
  | tomlInteger {depth : Nat} {i : Int} {text rest : List Char} {v : Value} {s : Scalar}
    (hnumber : Toml.IsInteger text i) (hrest : Toml.EndsNumber rest)
    (htakes : (Toml.value depth).Takes (text ++ rest) (.value v) rest) (h : Scalar.decode v = .ok s) :
    ObtainedFrom rounding (.integer i) s
  | tomlFloat {depth : Nat} {x : Binary64} {text rest : List Char} {v : Value} {s : Scalar}
    (hnumber : Toml.IsFloat text x) (hrest : Toml.EndsNumber rest)
    (htakes : (Toml.value depth).Takes (text ++ rest) (.value v) rest) (h : Scalar.decode v = .ok s) :
    ObtainedFrom rounding (.double x) s
  | word {negative : Bool} {s : Scalar} (h : Scalar.decode (.text (if negative then "-inf" else "inf")) = .ok s) :
    ObtainedFrom rounding (.double (.infinite negative)) s
  | int32 (i : Int32) : ObtainedFrom rounding (.integer i.toInt) (.ofInt64 i.toInt64)
  | int64 (i : Int64) : ObtainedFrom rounding (.integer i.toInt) (.ofInt64 i)
  | uint64 (n : UInt64) : ObtainedFrom rounding (.integer n.toNat) (.ofUInt64 n)
  | binary64 (x : Binary64) : ObtainedFrom rounding (.double x) (.ofBinary64 x)
  | infinity (negative : Bool) : ObtainedFrom rounding (.double (.infinite negative)) (.infinity negative)

theorem Scalar.ObtainedFrom.stands {q : Quantity} {s : Scalar} (h : ObtainedFrom rounding q s) : q.Stands s := by
  cases h with
  | jsonText hnumber h =>
    obtain ⟨v, hv, h⟩ := Json.readText_eq_ok.1 h
    rw [Json.parse?_of_isNumber hnumber] at hv
    rw [Json.eq_of_finite? hv] at h
    exact Quantity.stands_of_decode (Quantity.ofValue?_numeralValue _ _) h
  | json hnumber hrest htakes h => exact Quantity.stands_of_isNumber hnumber hrest htakes h
  | tomlInteger hnumber hrest htakes h => exact Quantity.stands_of_isInteger hnumber hrest htakes h
  | tomlFloat hnumber hrest htakes h => exact Quantity.stands_of_isFloat hnumber hrest htakes h
  | @word negative s h =>
    cases negative with
    | true => exact Quantity.stands_of_decode rfl h
    | false => exact Quantity.stands_of_decode rfl h
  | int32 i =>
    rw [← Int32.toInt_toInt64]
    exact .int _
  | int64 i => exact .int i
  | uint64 n => exact Quantity.stands_ofUInt64 n
  | binary64 x => exact Quantity.stands_ofBinary64 x
  | infinity negative => exact .infinity negative

theorem Quantity.Stands.canonical {q : Quantity} {s : Scalar} (h : q.Stands s) : s.Canonical := by
  cases h with
  | int i => trivial
  | uint h => exact h
  | float h => exact h
  | infinity negative => trivial

namespace Scalar

/--
Whatever number a scalar comes from, it is the scalar of that number, and unless it is NaN its JSON text is not
null and is read back as a scalar of the same form: the same one, but for a float whose digits the reader takes
for another number. Of scalars in these forms that are not NaN different ones have different texts.
-/
theorem canonical_readText :
    (∀ (rounding : Rounding) (q : Quantity) (s : Scalar), ObtainedFrom rounding q s → q.Stands s ∧
      (s.isNan = false →
        Json.readText decode (Json.compactText s.toValue) rounding =
          .ok (s.mapFloats (Json.reread rounding)) ∧
        (Json.readText decode (Json.compactText s.toValue) rounding = .ok s ↔
          ∀ x, s = .float x → Json.reread rounding x = x) ∧
        Json.compactText s.toValue ≠ "null")) ∧
    ∀ s t : Scalar, s.Canonical → t.Canonical → s.isNan = false → t.isNan = false → s ≠ t →
      Json.compactText s.toValue ≠ Json.compactText t.toValue := by
  refine ⟨fun rounding q s h => ⟨h.stands, fun hnan => ?_⟩, fun s t hs ht hsnan htnan hne heq => hne ?_⟩
  · have hexact : s.Exact := ⟨h.stands.canonical, hnan⟩
    refine ⟨hexact.readText rounding, ?_, hexact.compactText_ne_null⟩
    rw [hexact.readText, Except.ok.injEq, mapFloats_eq_self_iff]
    cases s with
    | _ => simp [float?]
  · exact Exact.eq_of_compactText ⟨hs, hsnan⟩ ⟨ht, htnan⟩ heq

/-- The digits of the least number that is too great for a signed integer. -/
def aboveInt64 : NumeralParts :=
  ⟨['9', '2', '2', '3', '3', '7', '2', '0', '3', '6', '8', '5', '4', '7', '7', '5', '8', '0', '8'], [], none⟩

theorem canonical_readText_aboveInt64 :
    ObtainedFrom .bestEffort (.ofNumeral .bestEffort false aboveInt64) (.uint 9223372036854775808) ∧
      (Quantity.ofNumeral .bestEffort false aboveInt64).Stands (.uint 9223372036854775808) ∧
      Json.readText decode (Json.compactText (.unsigned 9223372036854775808)) = .ok (.uint 9223372036854775808) := by
  have hnumber : Json.IsNumber false aboveInt64 "9223372036854775808".toList :=
    .plain (by decide) (List.all_eq_true.1 rfl) (by decide) (List.forall_mem_nil _) .absent
  have hvalue : Json.finite? (Json.numeralValue .bestEffort false aboveInt64) =
      some (.unsigned 9223372036854775808) := by
    rw [Json.numeralValue, if_pos (by decide), Json.integerValue, if_neg (by decide), if_neg (by decide),
      if_pos (by decide)]
    rfl
  have hobtained : ObtainedFrom .bestEffort (.ofNumeral .bestEffort false aboveInt64) (.uint 9223372036854775808) :=
    .jsonText hnumber (Json.readText_eq_ok.2 ⟨_, (Json.parse?_of_isNumber hnumber).trans hvalue, rfl⟩)
  obtain ⟨hstands, hread⟩ := canonical_readText.1 _ _ _ hobtained
  exact ⟨hobtained, hstands, (hread rfl).1⟩

/-- The digits of the greatest number that is too small for a signed integer. -/
def belowInt64 : NumeralParts :=
  ⟨['9', '2', '2', '3', '3', '7', '2', '0', '3', '6', '8', '5', '4', '7', '7', '5', '8', '0', '9'], [], none⟩

/--
A zero with a minus and a number too small for a signed integer are floats, although no mark says so, and a
float is not always the number that is read from its digits.
-/
theorem readText_unmarkedFloats :
    (Json.IsNumber true ⟨['0'], [], none⟩ "-0".toList ∧ Json.readText decode "-0" = .ok (.float (.zero true))) ∧
    (Json.IsNumber true belowInt64 "-9223372036854775809".toList ∧ -(digitsValue belowInt64.whole : Int) < 2 ^ 63 ∧
      Json.readText decode "-9223372036854775809" = .ok (.float (.ofInt (-2 ^ 63)))) ∧
    Json.compactText (toValue (.float Json.drifting)) = "31.245270191439438" ∧
      Json.readText decode "31.245270191439438" ≠ .ok (.float Json.drifting) := by
  have hzero : Json.IsNumber true ⟨['0'], [], none⟩ "-0".toList :=
    .minus (.plain (by decide) (List.forall_mem_singleton.2 rfl) (fun _ => rfl) (List.forall_mem_nil _) .absent)
  have hwhole : AllDigits belowInt64.whole := List.all_eq_true.1 rfl
  have hbelow : Json.IsNumber true belowInt64 "-9223372036854775809".toList :=
    .minus (.plain (by decide) hwhole (by decide) (List.forall_mem_nil _) .absent)
  have hfound : Numeral.bestEffort ⟨true, belowInt64.whole, [], 0⟩ = .ofInt (-2 ^ 63) := by decide +kernel
  have hnumeral : Json.numeralValue .bestEffort true belowInt64 = .float (.ofInt (-2 ^ 63)) := by
    rw [← hfound, Json.numeralValue, if_pos (by decide), Json.integerValue, if_neg (by decide),
      if_neg (by decide), if_neg (by decide)]
    rfl
  obtain ⟨negative, rank, hfinite⟩ : ∃ negative rank, Binary64.ofInt (-2 ^ 63) = .finite negative rank :=
    Binary64.finite_ofInt (by decide)
  rw [hfinite] at hnumeral ⊢
  have hparse : Json.parse? "-9223372036854775809" = Json.finite? (.float (.finite negative rank)) := by
    rw [Json.parse?_of_isNumber hbelow, hnumeral]
  have hdrifting : Exact (.float Json.drifting) := ⟨by rintro negative ⟨⟩, rfl⟩
  have htext : Json.compactText (toValue (.float Json.drifting)) = "31.245270191439438" := by decide +kernel
  refine ⟨⟨hzero, Json.readText_eq_ok.2 ⟨_, Json.parse?_of_isNumber hzero, rfl⟩⟩,
    ⟨hbelow, by decide, Json.readText_eq_ok.2 ⟨_, hparse, rfl⟩⟩, htext, fun hsame => ?_⟩
  have hread := hdrifting.readText .bestEffort
  rw [htext, hsame, mapFloats, Json.reread_drifting] at hread
  cases hread

end Scalar

end ModelBinding
