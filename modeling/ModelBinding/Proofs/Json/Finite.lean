import ModelBinding.Binding.Concise
import ModelBinding.Document.Json.Reader
import ModelBinding.Proofs.Entries

/-!
# Finite documents

A JSON text holds no number that is not finite: the reader refuses what is beyond the range. What
the reader gives has every property that the scalars in texts have and that sequences and tables
inherit from what is in them.
-/
namespace ModelBinding

namespace Value

/-- Every number in the value is finite. -/
def IsFinite (v : Value) : Prop := v.withoutNonFinite = v

theorem itemsWithoutNonFinite_eq (items : List Value) :
    itemsWithoutNonFinite items = items.map withoutNonFinite := by
  induction items with
  | nil => rfl
  | cons v rest ih => rw [itemsWithoutNonFinite, ih, List.map_cons]

theorem entriesWithoutNonFinite_eq (entries : List (String × Value)) :
    entriesWithoutNonFinite entries = entries.map fun entry => (entry.1, entry.2.withoutNonFinite) := by
  induction entries with
  | nil => rfl
  | cons entry rest ih => rw [entriesWithoutNonFinite, ih, List.map_cons]

theorem isFinite_sequence {items : List Value} :
    (sequence items).IsFinite ↔ ∀ v ∈ items, v.IsFinite := by
  rw [IsFinite, withoutNonFinite, sequence.injEq, itemsWithoutNonFinite_eq]
  exact map_eq_self_iff

theorem isFinite_table {entries : List (String × Value)} :
    (table entries).IsFinite ↔ ∀ entry ∈ entries, entry.2.IsFinite := by
  rw [IsFinite, withoutNonFinite, table.injEq, entriesWithoutNonFinite_eq, map_eq_self_iff]
  exact forall₂_congr fun entry _ => ⟨fun h => congrArg Prod.snd h, fun h => Prod.ext rfl h⟩

theorem isFinite_float {x : Binary64} :
    (float x).IsFinite ↔ ∃ negative rank, x = .finite negative rank := by
  cases x with
  | nan => exact iff_of_false (fun h => nomatch h) (by simp)
  | infinite negative => exact iff_of_false (fun h => nomatch h) (by simp)
  | finite negative rank => exact iff_of_true rfl ⟨negative, rank, rfl⟩

theorem isFinite_ofEntries {entries : List (String × Value)}
    (h : ∀ entry ∈ entries, entry.2.IsFinite) : (ofEntries entries).IsFinite :=
  isFinite_table.2 fun entry hentry => h entry (mem_orderEntries hentry)

theorem IsFinite.of_lookup {entries : List (String × Value)} (h : (table entries).IsFinite)
    {key : String} {v : Value} (hv : entries.lookup key = some v) : v.IsFinite :=
  isFinite_table.1 h (key, v) (mem_of_lookup hv)

end Value

namespace Binary64

theorem ofRank_ne_nan (negative : Bool) (rank : Nat) : ofRank negative rank ≠ .nan := by
  unfold ofRank
  split_ifs
  · exact fun h => nomatch h
  · exact fun h => nomatch h

theorem ofInt_ne_nan (i : Int) : ofInt i ≠ .nan := ofRank_ne_nan _ _

end Binary64

namespace Json

/-- Whatever the reader gives has the property. -/
def Always {α : Type} (p : α → Prop) (reader : Reader α) : Prop :=
  ∀ s read, reader s = some read → p read.value

variable {α : Type} {p : α → Prop}

theorem always_items {item : Reader α} (h : Always p item) (close : Char) :
    Always (fun as => ∀ a ∈ as, p a) (items item close) := by
  intro s
  induction hn : s.length using Nat.strong_induction_on generalizing s with
  | _ n ih =>
    intro read hread
    rw [items] at hread
    split at hread
    · cases hread
    · rename_i a r hr hfirst
      have hpa : p a := h _ _ hfirst
      split at hread
      · cases hread
      · rename_i c r' hb
        have hs := skipBlank_length s
        have hr' := skipBlank_length r
        rw [hb, List.length_cons] at hr'
        split_ifs at hread
        · obtain ⟨more, hmore, rfl⟩ := Option.map_eq_some_iff.1 hread
          exact List.forall_mem_cons.2 ⟨hpa, ih r'.length (by omega) r' rfl more hmore⟩
        · cases hread
          exact List.forall_mem_singleton.2 hpa

theorem always_bracketed {item : Reader α} (h : Always p item) (close : Char) :
    Always (fun as => ∀ a ∈ as, p a) (bracketed item close) := by
  intro s read hread
  unfold bracketed at hread
  split at hread
  · cases hread
  · split_ifs at hread
    · cases hread
      exact List.forall_mem_nil p
    · exact always_items h close s read hread

theorem always_member {p : Value → Prop} {reader : Reader Value} (h : Always p reader) :
    Always (fun entry => p entry.2) (member reader) := by
  intro s read hread
  unfold member at hread
  split at hread
  · cases hread
  · split at hread
    · obtain ⟨inner, hinner, rfl⟩ := Option.map_eq_some_iff.1 hread
      exact h _ inner hinner
    · cases hread

theorem always_word {first : Char} {text : List Char} {a : α} (h : p a) :
    Always p (word first text a) := by
  intro s read hread
  unfold word at hread
  split at hread
  · cases hread
  · cases hread
    exact h

/-- The scalars that there are in texts have the property, and a sequence or a table if all in it have. -/
structure Inherited (p : Value → Prop) : Prop where
  null : p .null
  boolean : ∀ b, p (.boolean b)
  integer : ∀ i, p (.integer i)
  unsigned : ∀ n, p (.unsigned n)
  finite : ∀ negative rank, p (.float (.finite negative rank))
  text : ∀ s, p (.text s)
  sequence : ∀ items : List Value, (∀ v ∈ items, p v) → p (.sequence items)
  table : ∀ entries : List (String × Value), (∀ entry ∈ entries, p entry.2) → p (.ofEntries entries)

namespace Inherited

variable {p : Value → Prop} {rounding : Rounding} {w : Value}

theorem of_finite?_float (h : Inherited p) {x : Binary64} (hw : finite? (.float x) = some w) : p w := by
  cases x with
  | nan => cases hw
  | infinite negative => cases hw
  | finite negative rank =>
    cases hw
    exact h.finite negative rank

theorem of_integerValue (h : Inherited p) {n : Numeral} (hw : finite? (integerValue rounding n) = some w) :
    p w := by
  unfold integerValue at hw
  dsimp only at hw
  split_ifs at hw
  · exact h.of_finite?_float hw
  · cases hw
    exact h.integer _
  · cases hw
    exact h.unsigned _
  · exact h.of_finite?_float hw

theorem always_number (h : Inherited p) (negative : Bool) : Always p (number rounding negative) := by
  intro s read hread
  unfold number at hread
  split at hread
  · cases hread
  · split_ifs at hread
    split at hread
    · cases hread
    · split at hread
      · cases hread
      · obtain ⟨w, hw, rfl⟩ := Option.map_eq_some_iff.1 hread
        dsimp only at hw ⊢
        split_ifs at hw
        · exact h.of_integerValue hw
        · exact h.of_finite?_float hw

theorem always_value (h : Inherited p) (depth : Nat) : Always p (value rounding depth) := by
  induction depth using Nat.strong_induction_on with
  | _ depth ih =>
    intro s read hread
    unfold value at hread
    split at hread
    · cases hread
    · split_ifs at hread
      · exact always_word h.null _ _ hread
      · exact always_word (h.boolean true) _ _ hread
      · exact always_word (h.boolean false) _ _ hread
      · obtain ⟨inner, -, rfl⟩ := Option.map_eq_some_iff.1 hread
        exact h.text _
      · obtain ⟨inner, hinner, rfl⟩ := Option.map_eq_some_iff.1 hread
        exact h.always_number true _ inner hinner
      · cases depth with
        | zero => cases hread
        | succ depth =>
          obtain ⟨inner, hinner, rfl⟩ := Option.map_eq_some_iff.1 hread
          exact h.sequence _
            (always_bracketed (ih depth (Nat.lt_succ_self depth)) ']' _ inner hinner)
      · cases depth with
        | zero => cases hread
        | succ depth =>
          obtain ⟨inner, hinner, rfl⟩ := Option.map_eq_some_iff.1 hread
          exact h.table _ (always_bracketed
            (always_member (ih depth (Nat.lt_succ_self depth))) '\x7d' _ inner hinner)
      · exact h.always_number false _ read hread

/-- A text holds no value without the property. -/
theorem of_parse? (h : Inherited p) {text : String} {v : Value} (hparse : parse? text rounding = some v) :
    p v := by
  unfold parse? at hparse
  split at hparse
  · cases hparse
  · rename_i read hread
    split_ifs at hparse
    cases hparse
    exact h.always_value maxDepth _ read hread

end Inherited

theorem inherited_isFinite : Inherited Value.IsFinite where
  null := rfl
  boolean _ := rfl
  integer _ := rfl
  unsigned _ := rfl
  finite _ _ := rfl
  text _ := rfl
  sequence _ := Value.isFinite_sequence.2
  table _ := Value.isFinite_ofEntries

/-- Every number that a text holds is finite. -/
theorem isFinite_of_parse? {rounding : Rounding} {text : String} {v : Value}
    (h : parse? text rounding = some v) : v.IsFinite :=
  inherited_isFinite.of_parse? h

end Json

end ModelBinding
