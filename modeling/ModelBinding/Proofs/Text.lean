import ModelBinding.Proofs.Number.Parts

/-!
# Texts

Lists that are written with something between their items and are told from it again, and integers that are
written in decimal digits.
-/
namespace ModelBinding

/-- A character that does not separate them is in one of the joined texts. -/
theorem mem_toList_intercalate {separator : String} {texts : List String} {c : Char}
    (hc : c ∉ separator.toList) :
    c ∈ (separator.intercalate texts).toList ↔ ∃ text ∈ texts, c ∈ text.toList := by
  induction texts with
  | nil => simp
  | cons text texts ih =>
    cases texts with
    | nil => simp
    | cons next rest =>
      rw [String.intercalate_cons_cons, String.toList_append, String.toList_append, List.mem_append,
        List.mem_append, ih, or_iff_left hc]
      simp

/-! ## Parts -/

section Parts

open String.Slice.Pattern.Model

variable {c : Char} {separator before text after : String} {s : String.Slice} {start stop here : s.Pos}

/-- No separator begins in a text without the first character of the separator. -/
theorem not_matchesAt_of_notMem (hseparator : separator.toList.head? = some c)
    (hstart : start.Splits before (text ++ after)) (hstop : stop.Splits (before ++ text) after)
    (hc : c ∉ text.toList) (hge : start ≤ here) (hlt : here < stop) : ¬ MatchesAt separator here := by
  rw [ForwardStringSearcher.matchesAt_iff_splits]
  rintro ⟨front, back, hhere⟩
  obtain ⟨skipped, rfl, -⟩ := (hstart.le_iff_exists_eq_append hhere).1 hge
  obtain ⟨left, hne, hfront, hback⟩ := (hhere.lt_iff_exists_eq_append hstop).1 hlt
  rw [String.append_assoc, String.append_right_inj] at hfront
  -- What is left of the text begins as the separator does.
  have hleft : left.toList.head? = some c := by
    have hhead := congrArg (fun text => text.toList.head?) hback
    rw [String.toList_append, String.toList_append, List.head?_append, hseparator, Option.some_or,
      List.head?_append_of_ne_nil _ fun h => hne (String.toList_eq_nil_iff.1 h)] at hhead
    exact hhead.symm
  rw [hfront, String.toList_append] at hc
  exact hc (List.mem_append_right _ (List.mem_of_head? hleft))

variable [StrictPatternModel separator]

/-- A text without the first character of the separator is passed as a whole. -/
theorem split_of_notMem (hseparator : separator.toList.head? = some c)
    (hstart : start.Splits before (text ++ after)) (hstop : stop.Splits (before ++ text) after)
    (hc : c ∉ text.toList) : ∃ hle : start ≤ stop,
    String.Slice.Pattern.Model.split separator start start (Std.le_refl start) =
      String.Slice.Pattern.Model.split separator start stop hle ∧
    (s.subslice start stop hle).copy = text := by
  obtain ⟨hle, hcopy⟩ := String.Slice.copy_slice_eq_iff_splits.2 ⟨before, after, hstart, hstop⟩
  refine ⟨hle, split_eq_of_not_matchesAt stop hle fun here hge hlt =>
    not_matchesAt_of_notMem hseparator hstart hstop hc hge hlt, ?_⟩
  rw [String.Slice.Subslice.copy_eq]
  exact hcopy

/-- From a place where joined texts begin on, the parts between the separators are the texts. -/
theorem map_copy_split (hseparator : separator.toList.head? = some c) {texts : List String} (hne : texts ≠ [])
    (htexts : ∀ text ∈ texts, c ∉ text.toList) (hstart : start.Splits before (separator.intercalate texts)) :
    (String.Slice.Pattern.Model.split separator start start (Std.le_refl start)).map (fun part => part.copy) =
      texts := by
  induction texts generalizing before start with
  | nil => exact absurd rfl hne
  | cons text texts ih =>
    obtain ⟨htext, htexts⟩ := List.forall_mem_cons.1 htexts
    cases texts with
    | nil =>
      rw [String.intercalate_singleton] at hstart
      have hend : s.endPos.Splits (before ++ text) "" :=
        String.Slice.splits_endPos_iff.2 ⟨hstart.eq_append.symm, rfl⟩
      rw [← String.append_empty (s := text)] at hstart
      obtain ⟨hle, hsplit, hcopy⟩ := split_of_notMem hseparator hstart hend htext
      rw [hsplit, split_endPos, List.map_singleton, hcopy]
    | cons next rest =>
      rw [String.intercalate_cons_cons, String.append_assoc] at hstart
      have hstop := hstart.splits_rotateRight
      have hnext := hstop.splits_rotateRight
      obtain ⟨hle, hsplit, hcopy⟩ := split_of_notMem hseparator hstart hstop htext
      have hmatch : IsLongestMatchAt separator hstart.rotateRight hstop.rotateRight :=
        ForwardStringSearcher.isLongestMatchAt_iff_splits.2 ⟨_, _, hstop, hnext⟩
      rw [hsplit, split_eq_of_isLongestMatchAt hmatch, List.map_cons, hcopy,
        ih (List.cons_ne_nil _ _) htexts hnext]

end Parts

/-- Joined texts are the parts of the whole, if what joins them begins in none of them. -/
theorem split_intercalate {separator : String} {c : Char} (hseparator : separator.toList.head? = some c)
    {texts : List String} (htexts : ∀ text ∈ texts, c ∉ text.toList) :
    ((separator.intercalate texts).split separator).toList.map String.Slice.copy =
      if texts = [] then [""] else texts := by
  have hempty : separator ≠ "" := by
    rintro rfl
    cases hseparator
  have := String.Slice.Pattern.Model.ForwardStringSearcher.strictPatternModel hempty
  have := String.Slice.Pattern.Model.ForwardStringSearcher.lawfulToForwardSearcherModel hempty
  split_ifs with hne
  · rw [hne, String.intercalate_nil, String.toList_split_empty]
  · have hstart : (separator.intercalate texts).toSlice.startPos.Splits "" (separator.intercalate texts) :=
      String.Slice.splits_startPos_iff.2 ⟨rfl, String.copy_toSlice.symm⟩
    rw [String.split_eq_split_toSlice, String.Slice.toList_split_eq_splitToSubslice, List.map_map,
      String.Slice.Pattern.toList_splitToSubslice_eq_modelSplit]
    exact map_copy_split hseparator hne htexts hstart

/-- Texts that are not empty and in which no separator begins are told by how they are joined. -/
theorem intercalate_injective {separator : String} {c : Char} (hseparator : separator.toList.head? = some c)
    {texts others : List String} (htexts : ∀ text ∈ texts, text ≠ "" ∧ c ∉ text.toList)
    (hothers : ∀ other ∈ others, other ≠ "" ∧ c ∉ other.toList)
    (h : separator.intercalate texts = separator.intercalate others) : texts = others := by
  have hparts := split_intercalate hseparator fun text htext => (htexts text htext).2
  rw [h, split_intercalate hseparator fun other hother => (hothers other hother).2] at hparts
  split_ifs at hparts with hnone hnil hnil
  · rw [hnone, hnil]
  · exact absurd rfl (htexts "" (hparts ▸ List.mem_singleton_self "")).1
  · exact absurd rfl (hothers "" (hparts ▸ List.mem_singleton_self "")).1
  · exact hparts.symm

/-! ## Decimals -/

/-- The text is an integer in decimal digits: a minus goes before a negative one, a zero only stands alone. -/
def IsDecimal (text : String) (i : Int) : Prop :=
  ∃ digits : List Char, text.toList = (if i < 0 then '-' :: digits else digits) ∧ digits ≠ [] ∧
    AllDigits digits ∧ (digits.head? = some '0' → digits = ['0']) ∧ digitsValue digits = i.natAbs

theorem digitsValue_singleton {c : Char} (h : c.isDigit = true) :
    digitsValue [c] < 10 ∧ (digitsValue [c]).digitChar = c := by
  obtain ⟨hge, hle⟩ : 48 ≤ c.toNat ∧ c.toNat ≤ 57 := Char.isDigit_iff_toNat.1 h
  rw [← Char.ofNat_toNat c]
  interval_cases c.toNat <;> decide

/-- Digits without a zero in front are those that their number is written with. -/
theorem toDigits_digitsValue {digits : List Char} (hne : digits ≠ []) (hdigits : AllDigits digits)
    (hhead : digits.head? = some '0' → digits = ['0']) : Nat.toDigits 10 (digitsValue digits) = digits := by
  -- What is left without the last digit has no zero in front either, unless nothing is left.
  induction digits using List.reverseRecOn with
  | nil => exact absurd rfl hne
  | append_singleton front last ih =>
    obtain ⟨hlt, hlast⟩ := digitsValue_singleton (hdigits last (by simp))
    rw [digitsValue_append, List.length_singleton, pow_one]
    by_cases hfront : front = []
    · subst hfront
      change Nat.toDigits 10 (0 * 10 + digitsValue [last]) = [last]
      rw [Nat.zero_mul, Nat.zero_add, Nat.toDigits_of_lt_base hlt, hlast]
    · have hzero : front.head? ≠ some '0' := by
        intro h
        have hlength := congrArg List.length (hhead (by rwa [List.head?_append_of_ne_nil _ hfront]))
        rw [List.length_append, List.length_singleton, List.length_singleton, Nat.add_eq_right,
          List.length_eq_zero_iff] at hlength
        exact hfront hlength
      have hwritten := ih hfront (fun c hc => hdigits c (List.mem_append_left _ hc)) fun h => absurd h hzero
      have hpos : 0 < digitsValue front := by
        refine Nat.pos_of_ne_zero fun h => hzero ?_
        rw [← hwritten, h]
        rfl
      rw [Nat.mul_comm, ← Nat.toDigits_append_toDigits (by decide) hpos hlt, hwritten,
        Nat.toDigits_of_lt_base hlt, hlast]

theorem isDecimal_iff {text : String} {i : Int} : IsDecimal text i ↔ text = toString i := by
  constructor
  · rintro ⟨digits, htext, hne, hdigits, hhead, hvalue⟩
    rw [← String.toList_inj, toList_toString_int, htext, ← hvalue, toDigits_digitsValue hne hdigits hhead]
  · rintro rfl
    refine ⟨Nat.toDigits 10 i.natAbs, toList_toString_int i, Nat.toDigits_ne_nil, allDigits_toDigits _, ?_,
      digitsValue_toDigits _⟩
    intro h
    by_cases hzero : i.natAbs = 0
    · rw [hzero]
      rfl
    · exact absurd h (head?_toDigits_ne_zero hzero)

theorem minus_mem_toString_iff {i : Int} : '-' ∈ (toString i).toList ↔ i < 0 := by
  rw [toList_toString_int]
  split_ifs with h
  · exact iff_of_true List.mem_cons_self h
  · exact iff_of_false (fun hmem => absurd (allDigits_toDigits _ _ hmem) (by decide)) h

end ModelBinding
