import ModelBinding.Proofs.Literal.Numerals
import ModelBinding.Proofs.Results

/-!
# Lists of literals

A list of scalars has a literal if each of them has, and its items can be told from one another again:
no literal of a number has the comma that goes between them.
-/
namespace ModelBinding.Literal

variable {value : Scalar} {values others : List Scalar} {type : ElementType} {text : String} {items : List String}

/-! ## Items -/

/-- A text that can be told from those that it is listed with. -/
def IsItem (text : String) : Prop := text ≠ "" ∧ ',' ∉ text.toList

theorem isItem_of_chars (hne : text.toList ≠ []) (hchars : ∀ c ∈ text.toList, IsNumeralChar c) : IsItem text :=
  ⟨fun h => hne (String.toList_eq_nil_iff.2 h), fun hcomma => not_isNumeralChar ',' (by decide) (hchars _ hcomma)⟩

theorem isItem_decimal {i : Int} (h : IsDecimal text i) : IsItem text := by
  refine isItem_of_chars ?_ (decimal_chars h)
  obtain ⟨digits, htext, hne, -⟩ := h
  rw [htext]
  split_ifs
  · exact List.cons_ne_nil _ _
  · exact hne

theorem isItem_infinity (negative : Bool) (type : ElementType) : IsItem (infinity negative type) := by
  refine ⟨fun hempty => ?_, fun hcomma => infinity_chars negative type _ hcomma (by decide)⟩
  have hcolon := colon_mem_infinity negative type
  rw [hempty] at hcolon
  cases hcolon

theorem isItem_double {x : Binary64} (hx : x ≠ .nan) (type : ElementType) :
    IsItem (x.text Scalar.numbers ++ type.suffix) := by
  cases x with
  | nan => exact absurd rfl hx
  | infinite negative =>
    unfold IsItem
    cases type <;> cases negative <;> decide
  | finite negative rank =>
    have hbody : Signed IsNumeral ((Binary64.finite negative rank).text Scalar.numbers).toList :=
      Binary64.signed_text rfl rfl negative rank
    refine isItem_of_chars ?_ ?_
    · rw [String.toList_append]
      exact List.append_ne_nil_of_left_ne_nil (hbody.ne_nil not_isNumeral_nil) _
    · rw [String.toList_append]
      exact body_chars hbody

/-- Every literal of a number can be an item. -/
theorem isItem_number (h : number value type = .ok text) : IsItem text := by
  rcases number_cases h with ⟨-, i, -, hdecimal⟩ | ⟨-, negative, -, rfl⟩ | ⟨-, x, -, hx, rfl⟩
  · exact isItem_decimal hdecimal
  · exact isItem_infinity negative type
  · exact isItem_double hx type

/-! ## Lists -/

/-- The items are the literals of the values, one after another. -/
def Items (type : ElementType) : List Scalar → List String → Prop :=
  List.Forall₂ fun value item => number value type = .ok item

theorem Items.isItem (h : Items type values items) : ∀ item ∈ items, IsItem item := by
  intro item hitem
  obtain ⟨value, -, hvalue⟩ := exists_of_mem_right h hitem
  exact isItem_number hvalue

theorem sequence_eq_ok : sequence values type = .ok text ↔
    ∃ items, Items type values items ∧ braced items = text := by
  rw [sequence, map_eq_ok]
  simp only [mapM_eq_ok]
  exact Iff.rfl

theorem braced_injective {others : List String} (hitems : ∀ item ∈ items, IsItem item)
    (hothers : ∀ item ∈ others, IsItem item) (h : braced items = braced others) : items = others := by
  rw [braced, braced, String.append_left_inj, String.append_right_inj] at h
  exact intercalate_injective rfl hitems hothers h

/-- Values have the same items exactly if each has the literal of the other at its place. -/
theorem Items.iff_agree (h : Items type values items) : Items type others items ↔
    List.Forall₂ (fun value other => number value type = number other type) values others := by
  constructor
  · intro hothers
    induction h generalizing others with
    | nil =>
      cases hothers
      exact .nil
    | cons hvalue _ ih =>
      cases hothers with
      | cons hother hrest => exact .cons (hvalue.trans hother.symm) (ih hrest)
  · intro hagree
    induction hagree generalizing items with
    | nil =>
      cases h
      exact .nil
    | cons hequal _ ih =>
      cases h with
      | cons hvalue hrest => exact .cons (hequal.symm.trans hvalue) (ih hrest)

/-- The texts between the commas are the items again. -/
theorem Items.split (h : Items type values items) (hne : values ≠ []) :
    ((", ".intercalate items).split ", ").toList.map String.Slice.copy = items := by
  have hitems : items ≠ [] := by
    rintro rfl
    cases h
    exact hne rfl
  rw [split_intercalate rfl fun item hitem => (h.isItem item hitem).2, if_neg hitems]

theorem Items.intercalate_eq_empty_iff (h : Items type values items) :
    ", ".intercalate items = "" ↔ values = [] := by
  constructor
  · intro hempty
    obtain rfl : items = [] := intercalate_injective rfl h.isItem (List.forall_mem_nil _) hempty
    cases h
    rfl
  · rintro rfl
    cases h
    rfl

/--
A list has a literal if each of its scalars has one, and otherwise fails as the first that has none. Between
braces and commas are the literals of the scalars, each a part of the text on its own, and another list has
the same literal exactly if its scalars have the same literals.
-/
theorem sequence_faithful (values : List Scalar) (type : ElementType) :
    ((∃ text, sequence values type = .ok text) ↔ ∀ value ∈ values, ∃ text, number value type = .ok text) ∧
    (∀ e, sequence values type = .error e ↔ ∃ before value after, values = before ++ value :: after ∧
      (∀ earlier ∈ before, ∃ text, number earlier type = .ok text) ∧ number value type = .error e) ∧
    (∀ text, sequence values type = .ok text ↔ ∃ items, Items type values items ∧
      text = "\x7b " ++ ", ".intercalate items ++ " \x7d") ∧
    ∀ inner, sequence values type = .ok ("\x7b " ++ inner ++ " \x7d") →
      (inner = "" ↔ values = []) ∧
      (values ≠ [] → Items type values ((inner.split ", ").toList.map String.Slice.copy) ∧
        ((inner.split ", ").toList.map String.Slice.copy).length = values.length) ∧
      ∀ others, sequence others type = .ok ("\x7b " ++ inner ++ " \x7d") ↔
        List.Forall₂ (fun value other => number value type = number other type) values others := by
  refine ⟨exists_map_ok_iff.trans exists_mapM_ok_iff, fun e => map_eq_error.trans mapM_eq_error,
    fun text => ?_, fun inner h => ?_⟩
  · rw [sequence_eq_ok]
    exact exists_congr fun items => and_congr_right fun _ => eq_comm
  · obtain ⟨items, hitems, htext⟩ := sequence_eq_ok.1 h
    obtain rfl : ", ".intercalate items = inner := by
      rwa [braced, String.append_left_inj, String.append_right_inj] at htext
    refine ⟨hitems.intercalate_eq_empty_iff, fun hne => ?_, fun others => ?_⟩
    · rw [hitems.split hne]
      exact ⟨hitems, (List.Forall₂.length_eq hitems).symm⟩
    · rw [← hitems.iff_agree, sequence_eq_ok]
      constructor
      · rintro ⟨otherItems, hothers, heq⟩
        rwa [braced_injective hitems.isItem hothers.isItem heq.symm]
      · exact fun hothers => ⟨items, hothers, rfl⟩

theorem sequence_faithful_bounds :
    let values : List Scalar := [.int (-1), .float quarterMillionth, .infinity false]
    let inner := "-1.0F, -2.5e-7F, std::numeric_limits<float>::infinity()"
    sequence values .float32 = .ok ("\x7b " ++ inner ++ " \x7d") ∧
      Items .float32 values ((inner.split ", ").toList.map String.Slice.copy) ∧
      ((inner.split ", ").toList.map String.Slice.copy).length = 3 := by
  intro values inner
  have hsequence : sequence values .float32 = .ok ("\x7b " ++ inner ++ " \x7d") := by decide +kernel
  have hsplit := ((sequence_faithful values .float32).2.2.2 inner hsequence).2.1 (List.cons_ne_nil _ _)
  exact ⟨hsequence, hsplit⟩

end ModelBinding.Literal
