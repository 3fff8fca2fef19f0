import ModelBinding.Proofs.Document.Dumped

/-!
# Reading a record out of its dump

A dump shows values in one of two modes. It leaves out entries that reading derives again, and says null
for a number that is not finite. Its finite numbers are there as they are read again from the text, which
for a reader that rounds to nearest is as they were.
-/
namespace ModelBinding

variable {α : Type} {mode : DumpMode} {rounding : Rounding}

theorem Value.lookup_dumpedEntries_orderEntries {fields : List (String × Value)}
    (h : (fields.map Prod.fst).Nodup) (key : String) :
    (dumpedEntries mode false (orderEntries fields)).lookup key =
      (fields.lookup key).bind (stored mode false key) := by
  rw [lookup_dumpedEntries key (keyOrdered_orderEntries fields).nodup_keys, lookup_orderEntries h]

namespace Json

/-- A number that is not finite is none that is written. -/
theorem reread_infinite (rounding : Rounding) (x : Binary64) (negative : Bool)
    (h : reread rounding x = .infinite negative) : x = .infinite negative := by
  cases x with
  | finite negative rank =>
    obtain ⟨rank', hrank'⟩ := exists_reread rounding negative rank
    rw [hrank'] at h
    cases h
  | _ => exact h

end Json

/-- How the text of a dump shows values to a reader. -/
def View.dump (mode : DumpMode) (rounding : Rounding) : View where
  shown isMap v := (v.dumped mode isMap).mapFloats (Json.reread rounding)
  entry key v := (Value.stored mode false key v).map (Value.mapFloats (Json.reread rounding))
  Says x := ∃ negative rank, x = .finite negative rank
  reread := Json.reread rounding
  boolean _ _ := rfl
  integer _ _ := rfl
  unsigned _ _ := rfl
  float _ _ h := by
    obtain ⟨negative, rank, rfl⟩ := h
    rfl
  reread_infinite := Json.reread_infinite rounding
  text _ _ := rfl
  sequence _ items := by
    rw [Value.dumped_sequence, Value.mapFloats_sequence, List.map_map]
    rfl
  record fields h := by
    refine ⟨_, by rw [Value.dumped_ofEntries, Value.mapFloats_table], fun key => ?_⟩
    rw [lookup_map_snd, Value.lookup_dumpedEntries_orderEntries h, Option.map_bind]
    rfl
  names entries hordered _ := by
    rw [Value.dumped_table hordered, Value.dumpedEntries_plainMap, Value.mapFloats_table, List.map_map]
    rfl
  entry_null key := by
    rw [Value.stored_null]
    split_ifs
    · exact .inr rfl
    · exact .inl rfl
  entry_field key v hkey hv := by
    have hfinite : v.withoutNonFinite ≠ .null := fun hnull =>
      hv (congrArg (fun w => (normalize mode _ w).mapFloats (Json.reread rounding)) hnull)
    rw [Value.stored_of_isFieldKey hkey hfinite, Option.map_some]
  entry_doc s := by
    rw [Value.stored_doc]
    split_ifs with h
    · exact .inr ⟨h.2, rfl⟩
    · exact .inl rfl

theorem shows_dumpedEntries (mode : DumpMode) (rounding : Rounding) {fields : List (String × Value)}
    (h : (fields.map Prod.fst).Nodup) : Shows (.dump mode rounding) fields
      ((Value.dumpedEntries mode false (orderEntries fields)).map fun entry =>
        (entry.1, entry.2.mapFloats (Json.reread rounding))) := by
  intro key _
  rw [lookup_map_snd, Value.lookup_dumpedEntries_orderEntries h, Option.map_bind]
  rfl

end ModelBinding
