import ModelBinding.Proofs.Entries
import ModelBinding.Proofs.Json.Reread
import ModelBinding.Proofs.Json.Scanner

/-!
# Reading back what was written

A value that a document can hold is read back from its text, its floats as far as the reader gives
them back: its integers are signed where they fit, its floats are finite, its tables are ordered, and
it nests no deeper than the reader goes.
-/
namespace ModelBinding

namespace Value

mutual

/-- What the text of a value gives back, read with an allowance for nesting. -/
def Legible (depth : Nat) : Value → Prop
  | .unsigned n => 2 ^ 63 ≤ n.toNat
  | .float x => ∃ negative rank, x = .finite negative rank
  | .sequence items => 0 < depth ∧ LegibleItems (depth - 1) items
  | .table entries => 0 < depth ∧ KeyOrdered entries ∧ LegibleEntries (depth - 1) entries
  | _ => True

def LegibleItems (depth : Nat) : List Value → Prop
  | [] => True
  | v :: rest => Legible depth v ∧ LegibleItems depth rest

def LegibleEntries (depth : Nat) : List (String × Value) → Prop
  | [] => True
  | (_, v) :: rest => Legible depth v ∧ LegibleEntries depth rest

end

theorem legibleItems_iff {depth : Nat} {items : List Value} :
    LegibleItems depth items ↔ ∀ v ∈ items, v.Legible depth := by
  induction items with
  | nil => simp [LegibleItems]
  | cons v rest ih => simp [LegibleItems, ih]

theorem legibleEntries_iff {depth : Nat} {entries : List (String × Value)} :
    LegibleEntries depth entries ↔ ∀ entry ∈ entries, entry.2.Legible depth := by
  induction entries with
  | nil => simp [LegibleEntries]
  | cons entry rest ih => simp [LegibleEntries, ih]

theorem keyOrdered_mapEntries {f : Binary64 → Binary64} {entries : List (String × Value)}
    (h : KeyOrdered entries) : KeyOrdered (mapEntries f entries) := by
  rw [mapEntries_eq]
  exact keyOrdered_map _ h

end Value

namespace Json

variable {rounding : Rounding}

/-! ## Blanks -/

theorem skipBlank_cons {c : Char} (h : isBlank c = false) (s : List Char) :
    skipBlank (c :: s) = c :: s := by
  simp [skipBlank, h]

theorem skipBlank_lineAt (level : Nat) (s : List Char) :
    skipBlank (lineAt level ++ s) = skipBlank s := by
  have hspaces : ∀ n, (List.replicate n ' ' ++ s).dropWhile isBlank = s.dropWhile isBlank := by
    intro n
    induction n with
    | zero => rfl
    | succ n ih => rwa [List.replicate_succ, List.cons_append, List.dropWhile_cons_of_pos rfl]
  rw [skipBlank, lineAt, List.cons_append, List.dropWhile_cons_of_pos rfl, hspaces, skipBlank]

theorem endsNumber_lineAt (level : Nat) (s : List Char) : EndsNumber (lineAt level ++ s) := by
  intro c hc
  have he : c = '\n' := by simpa [lineAt] using hc.symm
  rw [he]
  decide

theorem endsNumber_comma (s : List Char) : EndsNumber (',' :: s) := by
  intro c hc
  have he : c = ',' := by simpa using hc.symm
  rw [he]
  decide

/-! ## Lists in brackets -/

section Items

variable {α : Type} {item : Reader α} {close : Char}

/-- After an item comes the closing mark, or a comma and the items that are left. -/
theorem takes_items_cons {s after next rest : List Char} {a : α} {as : List α} {c : Char}
    (h : item.Takes (skipBlank s) a after) (hafter : skipBlank after = c :: next)
    (hrest : (c = close ∧ close ≠ ',' ∧ as = [] ∧ rest = next) ∨
      (c = ',' ∧ Reader.Takes (items item close) next as rest)) :
    Reader.Takes (items item close) s (a :: as) rest := by
  obtain ⟨⟨_, _, hlt⟩, hs, rfl, rfl⟩ := h
  unfold Reader.Takes
  rw [items, hs]
  simp only
  split
  · rename_i hb
    rw [hafter] at hb
    cases hb
  · rename_i hb
    rw [hafter] at hb
    cases hb
    rcases hrest with ⟨rfl, hclose, rfl, rfl⟩ | ⟨rfl, ⟨_, _, hlt'⟩, hs', rfl, rfl⟩
    · rw [if_neg hclose, if_pos rfl]
      exact ⟨_, rfl, rfl, rfl⟩
    · rw [if_pos rfl, hs']
      exact ⟨_, rfl, rfl, rfl⟩

theorem takes_items_last {s after rest : List Char} {a : α} (h : item.Takes (skipBlank s) a after)
    (hclose : close ≠ ',') (hafter : skipBlank after = close :: rest) :
    Reader.Takes (items item close) s [a] rest :=
  takes_items_cons h hafter (.inl ⟨rfl, hclose, rfl, rfl⟩)

theorem takes_items_more {s after next rest : List Char} {a : α} {as : List α}
    (h : item.Takes (skipBlank s) a after) (hafter : skipBlank after = ',' :: next)
    (hmore : Reader.Takes (items item close) next as rest) :
    Reader.Takes (items item close) s (a :: as) rest :=
  takes_items_cons h hafter (.inr ⟨rfl, hmore⟩)

theorem takes_bracketed_nil (rest : List Char) (hblank : isBlank close = false) :
    (bracketed item close).Takes (close :: rest) [] rest := by
  have h := skipBlank_cons hblank rest
  unfold Reader.Takes bracketed
  split
  · rename_i hb
    rw [h] at hb
    cases hb
  · rename_i c r hb
    rw [h] at hb
    cases hb
    rw [if_pos rfl]
    exact ⟨_, rfl, rfl, rfl⟩

/-- A list that is not empty, if no item begins with the closing mark. -/
theorem takes_bracketed_items {s rest : List Char} {as : List α}
    (hclose : ∀ r, item (close :: r) = none) (h : Reader.Takes (items item close) s as rest) :
    (bracketed item close).Takes s as rest := by
  obtain ⟨read, hread, hvalue, hrest⟩ := h
  have hfirst : ∃ first, item (skipBlank s) = some first := by
    rw [items] at hread
    split at hread
    · cases hread
    · exact ⟨_, by assumption⟩
  obtain ⟨first, hfirst⟩ := hfirst
  unfold Reader.Takes bracketed
  split
  · rename_i hb
    have hshorter := first.shorter
    simp [hb] at hshorter
  · rename_i c r hb
    by_cases hc : c = close
    · have hnone := hclose r
      rw [← hc, ← hb, hfirst] at hnone
      cases hnone
    · rw [if_neg hc]
      exact ⟨read, hread, hvalue, hrest⟩

theorem takes_member {reader : Reader Value} {key : String} {v : Value} {s rest : List Char}
    (h : reader.Takes (skipBlank s) v rest) :
    (member reader).Takes (quoted key ++ ':' :: s) (key, v) rest := by
  obtain ⟨⟨key', after, hlt⟩, hkey, hvalue, hafter⟩ := takes_string key (':' :: s)
  dsimp only at hvalue hafter
  subst hvalue hafter
  obtain ⟨read, hread, rfl, rfl⟩ := h
  have hcolon : skipBlank (':' :: s) = ':' :: s := skipBlank_cons rfl s
  unfold Reader.Takes member
  rw [hkey]
  dsimp only
  split
  · rename_i hb
    rw [hcolon] at hb
    cases hb
    rw [hread]
    exact ⟨_, rfl, rfl, rfl⟩
  · rename_i hb
    exact absurd hcolon (hb s)

end Items

/-! ## Scalars -/

/-- A digit begins a number without a sign. -/
theorem value_of_digit (depth : Nat) {c : Char} (h : c.isDigit = true) (r : List Char) :
    value rounding depth (c :: r) = number rounding false (c :: r) := by
  have hne : ∀ d : Char, d.isDigit = false → c ≠ d := fun d hd he => by
    rw [he, hd] at h
    cases h
  unfold value
  simp only [if_neg (hne 'n' rfl), if_neg (hne 't' rfl), if_neg (hne 'f' rfl),
    if_neg (hne '"' rfl), if_neg (hne '-' rfl), if_neg (hne '[' rfl), if_neg (hne '\x7b' rfl)]

theorem takes_value_digits {depth : Nat} {text rest : List Char} {v : Value}
    (hhead : ∀ c ∈ text.head?, c.isDigit = true) (hne : text ≠ [])
    (h : (number rounding false).Takes (text ++ rest) v rest) :
    (value rounding depth).Takes (text ++ rest) v rest := by
  obtain ⟨c, r, rfl⟩ := List.exists_cons_of_ne_nil hne
  unfold Reader.Takes
  rw [List.cons_append, value_of_digit depth (hhead c rfl)]
  exact h

theorem takes_value_minus {depth : Nat} {text rest : List Char} {v : Value}
    (h : (number rounding true).Takes (text ++ rest) v rest) :
    (value rounding depth).Takes ('-' :: text ++ rest) v rest := by
  apply h.through id
  unfold value
  rfl

theorem integerValue_nonneg {digits : List Char} {n : Nat} (hvalue : digitsValue digits = n) :
    integerValue rounding ⟨false, digits, [], 0⟩ =
      if n < 2 ^ 63 then .integer (.ofInt n) else if n < 2 ^ 64 then .unsigned (.ofNat n)
      else .float (Numeral.rounded rounding ⟨false, digits, [], 0⟩) := by
  have hint : Numeral.toInt ⟨false, digits, [], 0⟩ = (n : Int) := by simp [Numeral.toInt, hvalue]
  simp only [integerValue, hint, Bool.false_eq_true, false_and, if_false]
  by_cases hsmall : n < 2 ^ 63
  · rw [if_pos (by omega), if_pos hsmall]
  · rw [if_neg (by omega), if_neg hsmall]
    by_cases hlarge : n < 2 ^ 64
    · rw [if_pos (by omega), if_pos hlarge, Int.toNat_natCast]
    · rw [if_neg (by omega), if_neg hlarge]

theorem takes_value_nat {depth n : Nat} {v : Value} (hv : v = .integer (.ofInt n) ∧ n < 2 ^ 63 ∨
      v = .unsigned (.ofNat n) ∧ 2 ^ 63 ≤ n ∧ n < 2 ^ 64) {rest : List Char}
    (hrest : EndsNumber rest) : (value rounding depth).Takes (Nat.toDigits 10 n ++ rest) v rest := by
  have hhead : ∀ c ∈ (Nat.toDigits 10 n).head?, c.isDigit = true :=
    fun c hc => allDigits_toDigits n c (List.mem_of_mem_head? hc)
  refine takes_value_digits hhead Nat.toDigits_ne_nil (takes_number_integer false n ?_ hrest)
  rw [integerValue_nonneg (digitsValue_toDigits n)]
  rcases hv with ⟨rfl, hlt⟩ | ⟨rfl, hge, hlt⟩
  · rw [if_pos hlt]
    rfl
  · rw [if_neg (by omega), if_pos hlt]
    rfl

theorem takes_value_integer (depth : Nat) (i : Int64) {rest : List Char}
    (hrest : EndsNumber rest) :
    (value rounding depth).Takes ((toString i.toInt).toList ++ rest) (.integer i) rest := by
  have hle := Int64.le_toInt i
  have hlt := Int64.toInt_lt i
  rw [toList_toString_int]
  split_ifs with hneg
  · refine takes_value_minus (takes_number_integer true i.toInt.natAbs ?_ hrest)
    have hint : -(i.toInt.natAbs : Int) = i.toInt := by omega
    simp only [integerValue, Numeral.toInt, digitsValue_toDigits, if_true, hint]
    rw [if_neg (by omega), if_pos (by omega), Int64.ofInt_toInt]
    rfl
  · have hint : (i.toInt.natAbs : Int) = i.toInt := by omega
    refine takes_value_nat (.inl ⟨?_, by omega⟩) hrest
    rw [hint, Int64.ofInt_toInt]

theorem takes_value_unsigned (depth : Nat) {n : UInt64} (h : 2 ^ 63 ≤ n.toNat) {rest : List Char}
    (hrest : EndsNumber rest) :
    (value rounding depth).Takes ((toString n.toNat).toList ++ rest) (.unsigned n) rest := by
  have hlt := n.toNat_lt
  rw [toList_toString_ofNat]
  refine takes_value_nat (.inr ⟨?_, h, hlt⟩) hrest
  rw [UInt64.ofNat_toNat]

/-- The text of a finite number is read as the number that the reader finds of its digits. -/
theorem takes_value_float (depth : Nat) (negative : Bool) (rank : Fin Binary64.finiteCount)
    {rest : List Char} (hrest : EndsNumber rest) :
    (value rounding depth).Takes (floatText (.finite negative rank) ++ rest)
      (.float (reread rounding (.finite negative rank))) rest := by
  let d := Binary64.shortest numbers.tie rank
  have hw := NumberLayout.wellFormed_parts numbers d
  obtain ⟨rank', hrank'⟩ := exists_reread rounding negative rank
  have hv : ((numbers.parts d).numeral negative).rounded rounding = .finite negative rank' := hrank'
  have htext : floatText (.finite negative rank) =
      if negative then '-' :: (numbers.parts d).text numbers else (numbers.parts d).text numbers :=
    NumberLayout.toList_text_finite rfl negative rank
  rw [hrank']
  rw [htext]
  have hnumber := takes_number_float numbers negative hw hv hrest
  cases negative with
  | true => exact takes_value_minus hnumber
  | false =>
    rw [if_neg Bool.false_ne_true]
    obtain ⟨c, r, hcr⟩ := List.exists_cons_of_ne_nil hw.whole_ne_nil
    have hhead : ((numbers.parts d).text numbers).head? = some c := by
      simp [NumeralParts.text, hcr]
    refine takes_value_digits (fun c' hc' => ?_) (fun h => ?_) hnumber
    · rw [hhead] at hc'
      exact hw.whole_digits c' (by simp_all)
    · simp [h] at hhead

/-! ## Values -/

theorem takes_value_text (depth : Nat) (text : String) (rest : List Char) :
    (value rounding depth).Takes (quoted text ++ rest) (.text text) rest := by
  apply (takes_string text rest).map Value.text
  unfold value
  rfl

theorem takes_value_sequence {depth : Nat} {s rest : List Char} {items : List Value}
    (h : (bracketed (value rounding depth) ']').Takes s items rest) :
    (value rounding (depth + 1)).Takes ('[' :: s) (.sequence items) rest := by
  apply h.through Value.sequence
  rfl

theorem takes_value_table {depth : Nat} {s rest : List Char} {entries : List (String × Value)}
    (hordered : KeyOrdered entries)
    (h : (bracketed (member (value rounding depth)) '\x7d').Takes s entries rest) :
    (value rounding (depth + 1)).Takes ('\x7b' :: s) (.table entries) rest := by
  have htable : Value.table entries = .ofEntries entries := by
    rw [Value.ofEntries, orderEntries_of_keyOrdered hordered]
  rw [htable]
  apply h.through Value.ofEntries
  rfl

theorem number_eq_none (negative : Bool) {c : Char} (h : c.isDigit = false) (r : List Char) :
    number rounding negative (c :: r) = none := by
  have hspan : spanDigits (c :: r) = ([], c :: r) := by simp [spanDigits, h]
  unfold number
  split
  · rfl
  · rename_i hw
    rw [hspan] at hw
    cases hw

theorem value_eq_none (depth : Nat) {c : Char} (h : isBlank c = true ∨ c = ']') (r : List Char) :
    value rounding depth (c :: r) = none := by
  have hc : c = ' ' ∨ c = '\n' ∨ c = '\t' ∨ c = '\r' ∨ c = ']' := by
    simpa [isBlank, or_assoc] using h
  have hnumber : value rounding depth (c :: r) = number rounding false (c :: r) := by
    unfold value
    rcases hc with rfl | rfl | rfl | rfl | rfl
    all_goals rfl
  have hdigit : c.isDigit = false := by
    rcases hc with rfl | rfl | rfl | rfl | rfl
    all_goals rfl
  rw [hnumber, number_eq_none false hdigit]

/-- A value does not begin with a blank. -/
theorem skipBlank_of_takes_value {depth : Nat} {s rest : List Char} {v : Value}
    (h : (value rounding depth).Takes s v rest) : skipBlank s = s := by
  obtain ⟨read, hread, -, -⟩ := h
  cases s with
  | nil => rfl
  | cons c r =>
    apply skipBlank_cons
    by_contra hblank
    rw [value_eq_none depth (.inl (eq_true_of_ne_false hblank))] at hread
    cases hread

theorem takes_value_null (depth : Nat) (rest : List Char) :
    (value rounding depth).Takes ("null".toList ++ rest) .null rest := by
  have h := takes_word 'n' ['u', 'l', 'l'] rest Value.null
  unfold Reader.Takes value
  exact h

theorem takes_value_boolean (depth : Nat) (b : Bool) (rest : List Char) :
    (value rounding depth).Takes ((if b then "true" else "false").toList ++ rest) (.boolean b) rest := by
  cases b with
  | true =>
    have h := takes_word 't' ['r', 'u', 'e'] rest (Value.boolean true)
    unfold Reader.Takes value
    exact h
  | false =>
    have h := takes_word 'f' ['a', 'l', 's', 'e'] rest (Value.boolean false)
    unfold Reader.Takes value
    exact h

theorem takes_value_lineAt (level : Nat) {depth : Nat} {s rest : List Char} {v : Value}
    (h : (value rounding depth).Takes s v rest) :
    (value rounding depth).Takes (skipBlank (lineAt level ++ s)) v rest := by
  rwa [skipBlank_lineAt, skipBlank_of_takes_value h]

/-- A member on a line of its own, with a blank after the colon. -/
theorem takes_member_lineAt (level : Nat) {depth : Nat} {key : String} {v : Value}
    {s rest : List Char} (h : (value rounding depth).Takes s v rest) :
    (member (value rounding depth)).Takes (skipBlank (lineAt level ++ (quoted key ++ ':' :: ' ' :: s)))
      (key, v) rest := by
  have hquote : skipBlank (quoted key ++ ':' :: ' ' :: s) = quoted key ++ ':' :: ' ' :: s :=
    skipBlank_cons rfl _
  have hspace : skipBlank (' ' :: s) = skipBlank s := rfl
  rw [skipBlank_lineAt, hquote]
  apply takes_member
  rwa [hspace, skipBlank_of_takes_value h]

mutual

/-- The text of a legible value is read as that value with its floats read back. -/
theorem takes_value (level : Nat) : (v : Value) → {depth : Nat} → v.Legible depth →
    {rest : List Char} → EndsNumber rest →
    (value rounding depth).Takes (spread level v ++ rest) (v.mapFloats (reread rounding)) rest
  | .null, depth, _, rest, _ => takes_value_null depth rest
  | .boolean b, depth, _, rest, _ => takes_value_boolean depth b rest
  | .integer i, depth, _, rest, hrest => takes_value_integer depth i hrest
  | .unsigned n, depth, h, rest, hrest => takes_value_unsigned depth h hrest
  | .float x, depth, h, rest, hrest => by
    obtain ⟨negative, rank, rfl⟩ := h
    exact takes_value_float depth negative rank hrest
  | .text text, depth, _, rest, _ => takes_value_text depth text rest
  | .sequence [], depth + 1, _, rest, _ => takes_value_sequence (takes_bracketed_nil rest rfl)
  | .sequence (v :: vs), depth + 1, h, rest, _ => by
    have hitems := takes_spreadItems (level + 1) level (v :: vs) (List.cons_ne_nil v vs) h.2 rest
    simp only [spread, List.cons_append, List.append_assoc, List.nil_append]
    exact takes_value_sequence
      (takes_bracketed_items (fun r => value_eq_none depth (.inr rfl) r) hitems)
  | .table [], depth + 1, _, rest, _ =>
    takes_value_table List.Pairwise.nil (takes_bracketed_nil rest rfl)
  | .table ((key, v) :: entries), depth + 1, h, rest, _ => by
    have hentries := takes_spreadEntries (level + 1) level ((key, v) :: entries)
      (List.cons_ne_nil _ _) h.2.2 rest
    simp only [spread, List.cons_append, List.append_assoc, List.nil_append]
    exact takes_value_table (Value.keyOrdered_mapEntries h.2.1) (takes_bracketed_items (fun _ => rfl) hentries)

theorem takes_spreadItems (level outer : Nat) : (vs : List Value) → vs ≠ [] → {depth : Nat} →
    Value.LegibleItems depth vs → (rest : List Char) →
    Reader.Takes (items (value rounding depth) ']')
      (spreadItems level vs ++ (lineAt outer ++ ']' :: rest)) (Value.mapItems (reread rounding) vs) rest
  | [], hne, _, _, _ => absurd rfl hne
  | [v], _, depth, h, rest => by
    have hv := takes_value level v h.1 (endsNumber_lineAt outer (']' :: rest))
    rw [spreadItems, List.append_assoc]
    apply takes_items_last (takes_value_lineAt level hv) (by decide)
    rw [skipBlank_lineAt]
    rfl
  | v :: w :: vs, _, depth, h, rest => by
    have hmore := takes_spreadItems level outer (w :: vs) (List.cons_ne_nil w vs) h.2 rest
    have hv := takes_value level v h.1 (endsNumber_comma
      (spreadItems level (w :: vs) ++ (lineAt outer ++ ']' :: rest)))
    rw [spreadItems, List.append_assoc, List.append_assoc, List.cons_append]
    exact takes_items_more (takes_value_lineAt level hv) rfl hmore

theorem takes_spreadEntries (level outer : Nat) : (entries : List (String × Value)) →
    entries ≠ [] → {depth : Nat} → Value.LegibleEntries depth entries → (rest : List Char) →
    Reader.Takes (items (member (value rounding depth)) '\x7d')
      (spreadEntries level entries ++ (lineAt outer ++ '\x7d' :: rest))
      (Value.mapEntries (reread rounding) entries) rest
  | [], hne, _, _, _ => absurd rfl hne
  | [(key, v)], _, depth, h, rest => by
    have hv := takes_value level v h.1 (endsNumber_lineAt outer ('\x7d' :: rest))
    simp only [spreadEntries, List.append_assoc, List.cons_append]
    apply takes_items_last (takes_member_lineAt level hv) (by decide)
    rw [skipBlank_lineAt]
    rfl
  | (key, v) :: (key', w) :: entries, _, depth, h, rest => by
    have hmore := takes_spreadEntries level outer ((key', w) :: entries)
      (List.cons_ne_nil _ _) h.2 rest
    have hv := takes_value level v h.1 (endsNumber_comma
      (spreadEntries level ((key', w) :: entries) ++ (lineAt outer ++ '\x7d' :: rest)))
    have htext : spreadEntries level ((key, v) :: (key', w) :: entries) =
        lineAt level ++ (quoted key ++ ':' :: ' ' ::
          (spread level v ++ ',' :: spreadEntries level ((key', w) :: entries))) := by
      simp [spreadEntries]
    rw [htext]
    simp only [List.append_assoc, List.cons_append]
    exact takes_items_more (takes_member_lineAt level hv) rfl hmore

end

theorem parse?_of_takes {text : String} {v : Value} {rest : List Char}
    (h : (value rounding maxDepth).Takes (skipBlank text.toList) v rest) (hrest : skipBlank rest = []) :
    parse? text rounding = some v := by
  obtain ⟨read, hread, rfl, rfl⟩ := h
  unfold parse?
  rw [hread]
  dsimp only
  rw [if_pos hrest]

/-- A legible value is read back from its text, its floats as the reader finds them. -/
theorem parse?_spreadText {v : Value} (h : v.Legible maxDepth) :
    parse? (spreadText v) rounding = some (v.mapFloats (reread rounding)) := by
  have hend : EndsNumber [] := fun c hc => nomatch hc
  have htakes : (value rounding maxDepth).Takes _ _ [] := takes_value 0 v h hend
  rw [List.append_nil] at htakes
  refine parse?_of_takes ?_ (rfl : skipBlank [] = [])
  rwa [spreadText, String.toList_ofList, skipBlank_of_takes_value htakes]

/-- A reader that rounds to nearest gives the value back. -/
theorem parse?_spreadText_nearest {v : Value} (h : v.Legible maxDepth) :
    parse? (spreadText v) .nearest = some v := by
  rw [parse?_spreadText h, Value.mapFloats_eq_self reread_nearest]

end Json

end ModelBinding
