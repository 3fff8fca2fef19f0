import ModelBinding.Proofs.Document.Concise
import ModelBinding.Proofs.Document.View
import ModelBinding.Proofs.Json.RoundTrip

/-!
# What a dump keeps

The entries of a dumped table, key by key, and that every value is dumped as one that its text
gives back.
-/
namespace ModelBinding

variable {mode : DumpMode} {plainMap : Bool}

namespace Value

/-- The value as it is written in a mode. -/
def dumped (mode : DumpMode) (plainMap : Bool) (v : Value) : Value :=
  normalize mode plainMap v.withoutNonFinite

/-- What is written for an entry, if it is not left out. -/
def stored (mode : DumpMode) (plainMap : Bool) (key : String) (v : Value) : Option Value :=
  if keeps mode plainMap key v.withoutNonFinite then
    some (v.dumped mode (!plainMap && plainMapKeys.contains key))
  else none

def dumpedEntries (mode : DumpMode) (plainMap : Bool) (entries : List (String × Value)) :
    List (String × Value) :=
  normalizeEntries mode plainMap (entriesWithoutNonFinite entries)

theorem dumped_sequence (items : List Value) :
    (sequence items).dumped mode plainMap = sequence (items.map (dumped mode false)) := by
  rw [dumped, withoutNonFinite, normalize, normalizeItems_eq, itemsWithoutNonFinite_eq, List.map_map]
  rfl

theorem dumpedEntries_eq (entries : List (String × Value)) :
    dumpedEntries mode plainMap entries = keepEntries (stored mode plainMap) entries := by
  rw [dumpedEntries, normalizeEntries_eq, entriesWithoutNonFinite_eq, keepEntries, List.filterMap_map]
  rfl

theorem keyOrdered_dumpedEntries {entries : List (String × Value)} (h : KeyOrdered entries) :
    KeyOrdered (dumpedEntries mode plainMap entries) := by
  rw [dumpedEntries_eq]
  exact keyOrdered_keepEntries h

theorem lookup_dumpedEntries (key : String) {entries : List (String × Value)}
    (h : (entries.map Prod.fst).Nodup) :
    (dumpedEntries mode plainMap entries).lookup key =
      (entries.lookup key).bind (stored mode plainMap key) := by
  rw [dumpedEntries_eq]
  exact lookup_keepEntries key h

theorem dumped_table {entries : List (String × Value)} (h : KeyOrdered entries) :
    (table entries).dumped mode plainMap = table (dumpedEntries mode plainMap entries) := by
  change ofEntries (dumpedEntries mode plainMap entries) = _
  rw [ofEntries, orderEntries_of_keyOrdered (keyOrdered_dumpedEntries h)]

theorem dumped_ofEntries (entries : List (String × Value)) :
    (ofEntries entries).dumped mode plainMap =
      table (dumpedEntries mode plainMap (orderEntries entries)) :=
  dumped_table (keyOrdered_orderEntries entries)

/-- Every entry of a map from names stays. -/
theorem dumpedEntries_plainMap (entries : List (String × Value)) :
    dumpedEntries mode true entries = entries.map fun entry => (entry.1, entry.2.dumped mode false) := by
  rw [dumpedEntries_eq]
  exact keepEntries_eq_map fun _ _ => rfl

/-! ## Nesting -/

/-- In every mode the value is written as one that can be read back. -/
def Dumps (depth : Nat) (v : Value) : Prop :=
  ∀ mode plainMap, (v.dumped mode plainMap).Legible depth

variable {depth : Nat}

@[simp] theorem dumps_null : null.Dumps depth := fun _ _ => trivial

@[simp] theorem dumps_boolean (b : Bool) : (boolean b).Dumps depth := fun _ _ => trivial

@[simp] theorem dumps_integer (i : Int64) : (integer i).Dumps depth := fun _ _ => trivial

@[simp] theorem dumps_text (s : String) : (text s).Dumps depth := fun _ _ => trivial

@[simp] theorem dumps_ofText? (s : Option String) : (ofText? s).Dumps depth := by
  cases s with
  | none => exact dumps_null
  | some s => exact dumps_text s

@[simp] theorem dumps_float (x : Binary64) : (float x).Dumps depth := by
  intro mode plainMap
  cases x with
  | nan => exact trivial
  | infinite negative => exact trivial
  | finite negative rank => exact ⟨negative, rank, rfl⟩

theorem dumps_unsigned {n : UInt64} (h : 2 ^ 63 ≤ n.toNat) : (unsigned n).Dumps depth :=
  fun _ _ => h

@[simp] theorem dumps_ofUInt64 (n : UInt64) : (ofUInt64 n).Dumps depth := by
  unfold ofUInt64
  split_ifs with h
  · exact dumps_integer _
  · exact dumps_unsigned (Nat.le_of_not_lt h)

theorem dumps_sequence {items : List Value} (h : ∀ v ∈ items, v.Dumps depth) :
    (sequence items).Dumps (depth + 1) := by
  intro mode plainMap
  rw [dumped_sequence]
  refine ⟨Nat.succ_pos depth, legibleItems_iff.2 fun w hw => ?_⟩
  obtain ⟨v, hv, rfl⟩ := List.mem_map.1 hw
  exact h v hv mode false

theorem dumps_sequence_map {α : Type} {as : List α} {write : α → Value}
    (h : ∀ a ∈ as, (write a).Dumps depth) : (sequence (as.map write)).Dumps (depth + 1) := by
  refine dumps_sequence fun w hw => ?_
  obtain ⟨a, ha, rfl⟩ := List.mem_map.1 hw
  exact h a ha

theorem dumps_table {entries : List (String × Value)} (hordered : KeyOrdered entries)
    (h : ∀ entry ∈ entries, entry.2.Dumps depth) : (table entries).Dumps (depth + 1) := by
  intro mode plainMap
  rw [dumped_table hordered]
  refine ⟨Nat.succ_pos depth, keyOrdered_dumpedEntries hordered, legibleEntries_iff.2 fun entry hentry => ?_⟩
  rw [dumpedEntries_eq] at hentry
  obtain ⟨v, hv, hstored⟩ := mem_keepEntries.1 hentry
  unfold stored at hstored
  split_ifs at hstored
  rw [← Option.some.inj hstored]
  exact h (entry.1, v) hv mode _

theorem dumps_ofEntries {entries : List (String × Value)}
    (h : ∀ entry ∈ entries, entry.2.Dumps depth) : (ofEntries entries).Dumps (depth + 1) :=
  dumps_table (keyOrdered_orderEntries entries) fun entry hentry => h entry (mem_orderEntries hentry)

/-! ## Keys -/

theorem stored_of_isFieldKey {key : String} {v : Value} (hkey : IsFieldKey key)
    (hv : v.withoutNonFinite ≠ .null) :
    stored mode false key v = some (v.dumped mode (plainMapKeys.contains key)) := by
  have hkeeps : keeps mode false key v.withoutNonFinite = true := by
    unfold keeps isAuthoritative
    split
    · contradiction
    · simp [hkey.1, hkey.2]
    · simp [hkey.1]
  rw [stored, if_pos hkeeps]
  rfl

theorem stored_null (key : String) :
    stored mode false key null = if mode = .debug then some null else none := by
  unfold stored keeps
  cases mode <;> rfl

theorem stored_doc (s : String) :
    stored mode false "doc" (text s) = if mode = .concise ∧ s = "" then none else some (text s) := by
  by_cases hs : s = ""
  · subst hs
    cases mode <;> rfl
  · rw [if_neg fun h => hs h.2]
    have hkeeps : keeps mode false "doc" (text s) = true := by
      unfold keeps isAuthoritative
      split
      · simp_all
      · simp_all
      · simp
    change (if keeps mode false "doc" (text s) then _ else _) = _
    rw [if_pos hkeeps]
    rfl

end Value

end ModelBinding
