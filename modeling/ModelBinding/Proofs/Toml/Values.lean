import ModelBinding.Proofs.Toml.Keys
import ModelBinding.Proofs.Toml.Numbers

/-!
# Reading what was written in TOML: values

A value that can be written in a line is read from its text, wherever a line or an item ends. Arrays of
several items are written over several lines, and no item begins with what is skipped between items.
-/
namespace ModelBinding.Toml

variable {rest : List Char} {depth : Nat}

mutual

/-- The arrays of a value nest at most `depth` deep, and there are no tables in them. -/
def Nests (depth : Nat) : Value → Prop
  | .sequence items => 0 < depth ∧ NestsItems (depth - 1) items
  | .table _ => False
  | _ => True

def NestsItems (depth : Nat) : List Value → Prop
  | [] => True
  | v :: rest => Nests depth v ∧ NestsItems depth rest

end

/-! ## Blanks between items -/

theorem skipSpace_cons {c : Char} (hnewline : c ≠ '\n') (hreturn : c ≠ '\r') (hblank : isBlank c = false)
    (hcomment : c ≠ '#') (r : List Char) : skipSpace false (c :: r) = c :: r := by
  simp [skipSpace, hnewline, hreturn, hblank, hcomment]

theorem number_eq_none {c : Char} (hdigit : c.isDigit = false) (hsign : c ≠ '-' ∧ c ≠ '+')
    (hword : c ≠ 'i' ∧ c ≠ 'n') (r : List Char) : number (c :: r) = none := by
  have hzero : c ≠ '0' := by
    rintro rfl
    cases hdigit
  have hradix : radixInteger (c :: r) = none := radixInteger_eq_none fun d s h => absurd (List.cons.inj h).1 hzero
  have hs : sign (c :: r) = (false, c :: r) := by
    unfold sign
    split
    · simp_all
    · simp_all
    · rfl
  have hwhole : wholeDigits (c :: r) = none := by
    unfold wholeDigits
    split
    · simp_all
    · simp [digits, hdigit]
  have hdecimal : decimalNumber false (c :: r) = none := by
    unfold decimalNumber
    split
    · rfl
    · simp_all
  have hsigned : signedNumber (sign (c :: r)).1 (sign (c :: r)).2 = none := by
    rw [hs]
    simp [signedNumber, hword.1, hword.2, hdecimal]
  rw [number, hradix, hsigned]
  rfl

/-- No value begins with what is skipped before one, nor with the bracket that closes an array. -/
theorem value_eq_none (depth : Nat) {c : Char}
    (h : isBlank c = true ∨ c = '\n' ∨ c = '\r' ∨ c = '#' ∨ c = ']') (r : List Char) :
    value depth (c :: r) = none := by
  have hc : c = ' ' ∨ c = '\t' ∨ c = '\n' ∨ c = '\r' ∨ c = '#' ∨ c = ']' := by
    simpa [isBlank, or_assoc] using h
  have hdigit : c.isDigit = false ∧ (c ≠ '-' ∧ c ≠ '+') ∧ c ≠ 'i' ∧ c ≠ 'n' := by
    rcases hc with rfl | rfl | rfl | rfl | rfl | rfl
    all_goals decide
  unfold value
  rcases hc with rfl | rfl | rfl | rfl | rfl | rfl
  all_goals
    rw [dateTime_of_not_digit hdigit.1, number_eq_none hdigit.1 hdigit.2.1 hdigit.2.2]
    rfl

theorem value_nil (depth : Nat) : value depth [] = none := by
  unfold value
  rfl

/-- Nothing is skipped before a value, and it does not close the array around it. -/
theorem eq_cons_of_takes_value {s : List Char} {node : Node} (h : (value depth).Takes s node rest) :
    ∃ c r, s = c :: r ∧ c ≠ ']' ∧ isBlank c = false ∧ skipSpace false s = s := by
  obtain ⟨read, hread, -, -⟩ := h
  cases s with
  | nil =>
    rw [value_nil] at hread
    cases hread
  | cons c r =>
    have hne : ¬ (isBlank c = true ∨ c = '\n' ∨ c = '\r' ∨ c = '#' ∨ c = ']') := by
      intro h
      rw [value_eq_none depth h] at hread
      cases hread
    simp only [not_or, Bool.not_eq_true] at hne
    obtain ⟨hblank, hnewline, hreturn, hcomment, hbracket⟩ := hne
    exact ⟨c, r, rfl, hbracket, hblank, skipSpace_cons hnewline hreturn hblank hcomment r⟩

/-! ## Arrays -/

section Items

variable {item : Reader Node} {s t after next : List Char} {a : Node} {as : List Node} {c d : Char}

theorem takes_arrayItems_nil (hs : skipSpace false s = ']' :: rest) :
    Reader.Takes (arrayItems item) s [] rest := by
  unfold Reader.Takes
  rw [arrayItems]
  split
  · rename_i h
    rw [hs] at h
    cases h
  · rename_i h
    rw [hs] at h
    cases h
    rw [if_pos rfl]
    exact ⟨_, rfl, rfl, rfl⟩

/-- After an item comes the closing bracket, or a comma and the items that are left. -/
theorem takes_arrayItems_cons (hs : skipSpace false s = c :: t) (hc : c ≠ ']')
    (h : item.Takes (c :: t) a after) (hafter : skipSpace false after = d :: next)
    (hrest : (d = ']' ∧ as = [] ∧ rest = next) ∨ (d = ',' ∧ Reader.Takes (arrayItems item) next as rest)) :
    Reader.Takes (arrayItems item) s (a :: as) rest := by
  obtain ⟨⟨_, _, hlt⟩, hread, rfl, rfl⟩ := h
  unfold Reader.Takes
  rw [arrayItems]
  split
  · rename_i h
    rw [hs] at h
    cases h
  · rename_i h
    rw [hs] at h
    cases h
    rw [if_neg hc, hread]
    dsimp only
    split
    · rename_i hb
      rw [hafter] at hb
      cases hb
    · rename_i hb
      rw [hafter] at hb
      cases hb
      rcases hrest with ⟨rfl, rfl, rfl⟩ | ⟨rfl, ⟨_, _, hlt'⟩, hread', rfl, rfl⟩
      · rw [if_neg (by decide), if_pos rfl]
        exact ⟨_, rfl, rfl, rfl⟩
      · rw [if_pos rfl, hread']
        exact ⟨_, rfl, rfl, rfl⟩

theorem takes_arrayItems_last (hs : skipSpace false s = c :: t) (hc : c ≠ ']')
    (h : item.Takes (c :: t) a after) (hafter : skipSpace false after = ']' :: rest) :
    Reader.Takes (arrayItems item) s [a] rest :=
  takes_arrayItems_cons hs hc h hafter (.inl ⟨rfl, rfl, rfl⟩)

theorem takes_arrayItems_more (hs : skipSpace false s = c :: t) (hc : c ≠ ']')
    (h : item.Takes (c :: t) a after) (hafter : skipSpace false after = ',' :: next)
    (hmore : Reader.Takes (arrayItems item) next as rest) :
    Reader.Takes (arrayItems item) s (a :: as) rest :=
  takes_arrayItems_cons hs hc h hafter (.inr ⟨rfl, hmore⟩)

end Items

/-- The text is read as the value, wherever a value can end. -/
def IsRead (depth : Nat) (v : Value) (text : List Char) : Prop :=
  ∀ rest, EndsValue rest → (value depth).Takes (text ++ rest) (.value v) rest

def itemLine (text : List Char) : List Char := "    ".toList ++ text ++ [',', '\n']

theorem takes_itemLines {items : List Value} {texts : List (List Char)}
    (h : List.Forall₂ (IsRead depth) items texts) (rest : List Char) :
    Reader.Takes (arrayItems (value depth)) ('\n' :: (texts.flatMap itemLine ++ ']' :: rest))
      (items.map Node.value) rest := by
  induction h with
  | nil => exact takes_arrayItems_nil rfl
  | @cons v text items texts hv _ ih =>
    have hcomma : EndsValue (',' :: '\n' :: (texts.flatMap itemLine ++ ']' :: rest)) :=
      fun c hc => .inr (.inl (Option.some.inj hc).symm)
    have htext := hv _ hcomma
    obtain ⟨c, r, hcr, hc, -, hskip⟩ := eq_cons_of_takes_value htext
    have hline : '\n' :: ((text :: texts).flatMap itemLine ++ ']' :: rest) = '\n' :: ' ' :: ' ' :: ' ' :: ' ' ::
        (text ++ ',' :: '\n' :: (texts.flatMap itemLine ++ ']' :: rest)) := by
      simp [itemLine]
    rw [hline]
    rw [hcr] at htext hskip
    refine takes_arrayItems_more (c := c) (t := r) ?_ hc htext rfl ih
    rw [hcr]
    exact hskip

theorem isRead_array {items : List Value} {texts : List (List Char)}
    (h : List.Forall₂ (IsRead depth) items texts) : IsRead (depth + 1) (.sequence items) (array texts) := by
  intro rest _
  have harray : ∀ {r}, Reader.Takes (arrayItems (value depth)) r (items.map Node.value) rest →
      (value (depth + 1)).Takes ('[' :: r) (.value (.sequence items)) rest := by
    intro r hitems
    have hnodes : (items.map Node.value).map Node.toValue = items := by
      rw [List.map_map]
      exact List.map_id items
    have hread : (value (depth + 1)).Takes ('[' :: r) _ rest :=
      hitems.through (fun nodes => Node.value (.sequence (nodes.map Node.toValue))) (by unfold value; rfl)
    rwa [hnodes] at hread
  cases h with
  | nil => exact harray (takes_arrayItems_nil rfl)
  | cons hv hmore =>
    cases hmore with
    | nil =>
      have htext := hv (']' :: rest) fun c hc => .inr (.inr (Option.some.inj hc).symm)
      obtain ⟨c, r, hcr, hc, -, hskip⟩ := eq_cons_of_takes_value htext
      have hitems := takes_arrayItems_last (hskip.trans hcr) hc (hcr ▸ htext) rfl
      simpa [array] using harray hitems
    | cons hw hmore =>
      have hlines := takes_itemLines (.cons hv (.cons hw hmore)) rest
      have htext : ∀ first second more, array (first :: second :: more) ++ rest =
          '[' :: '\n' :: ((first :: second :: more).flatMap itemLine ++ ']' :: rest) := by
        intro first second more
        have harray : array (first :: second :: more) =
            '[' :: '\n' :: ((first :: second :: more).flatMap itemLine ++ [']']) := rfl
        rw [harray, List.cons_append, List.cons_append, List.append_assoc]
        rfl
      rw [htext]
      exact harray hlines

/-! ## Values in a line -/

theorem isRead_text (depth : Nat) (s : String) : IsRead depth (.text s) (quoted s.toList) := by
  intro rest hrest
  have hstring := takes_string s.toList (hrest.head (by decide) (by decide) (by decide))
  rw [String.ofList_toList] at hstring
  have hquote : ∃ c r, quoted s.toList ++ rest = c :: r ∧ (c = '"' ∨ c = '\'') := by
    unfold quoted
    dsimp only
    split_ifs
    · exact ⟨_, _, rfl, .inl rfl⟩
    · exact ⟨_, _, rfl, .inr rfl⟩
    · exact ⟨_, _, rfl, .inl rfl⟩
    · exact ⟨_, _, rfl, .inr rfl⟩
    · exact ⟨_, _, rfl, .inl rfl⟩
    · exact ⟨_, _, rfl, .inl rfl⟩
  obtain ⟨c, r, hcr, hc⟩ := hquote
  rw [hcr] at hstring ⊢
  refine hstring.map (fun text => Node.value (.text text)) ?_
  unfold value
  rw [if_pos hc]

theorem isRead_boolean (depth : Nat) (b : Bool) :
    IsRead depth (.boolean b) (if b then "true" else "false").toList := by
  intro rest _
  cases b with
  | true =>
    have hword := takes_word 't' ['r', 'u', 'e'] rest (Node.value (.boolean true))
    unfold Reader.Takes value
    exact hword
  | false =>
    have hword := takes_word 'f' ['a', 'l', 's', 'e'] rest (Node.value (.boolean false))
    unfold Reader.Takes value
    exact hword

mutual

/-- What is written in a line is read as the value that it was written for. -/
theorem isRead_inline : (v : Value) → {depth : Nat} → Nests depth v → {text : List Char} →
    inline v = some text → IsRead depth v text
  | .boolean b, depth, _, _, h => by
    cases h
    exact isRead_boolean depth b
  | .integer i, depth, _, _, h => by
    cases h
    exact fun _ hrest => takes_value_integer depth i hrest
  | .float x, depth, _, _, h => by
    cases h
    exact fun _ hrest => takes_value_float depth x hrest
  | .text s, depth, _, _, h => by
    cases h
    exact isRead_text depth s
  | .sequence items, depth + 1, hnests, _, h => by
    obtain ⟨texts, htexts, rfl⟩ := Option.map_eq_some_iff.1 h
    exact isRead_array (isRead_inlineItems items hnests.2 htexts)

theorem isRead_inlineItems : (items : List Value) → {depth : Nat} → NestsItems depth items →
    {texts : List (List Char)} → inlineItems items = some texts →
    List.Forall₂ (IsRead depth) items texts
  | [], _, _, _, h => by
    cases h
    exact .nil
  | v :: items, _, hnests, _, h => by
    obtain ⟨text, htext, h⟩ := Option.bind_eq_some_iff.1 h
    obtain ⟨texts, htexts, h⟩ := Option.bind_eq_some_iff.1 h
    cases h
    exact .cons (isRead_inline v hnests.1 htext) (isRead_inlineItems items hnests.2 htexts)

end

end ModelBinding.Toml
