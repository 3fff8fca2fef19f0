import ModelBinding.Proofs.Context.RoundTrip

/-!
# What a dump cannot hold

A scalar that is no number is written as null, which no scalar is read from, so a context with such
a scalar in an initializer does not come out of its dump.
-/
namespace ModelBinding

variable {mode : DumpMode} {rounding : Rounding} {isMap : Bool} {v w : Value}

namespace Scalar

/-- What is no number is written as null, and null is no scalar. -/
theorem shown_dump_of_isNan {s : Scalar} (h : s.isNan = true) :
    (View.dump mode rounding).shown isMap s.toValue = .null := by
  cases s with
  | float x =>
    cases x with
    | nan => rfl
    | _ => cases h
  | _ => cases h

theorem number_of_decode_dump {s read : Scalar}
    (h : decode ((View.dump mode rounding).shown isMap s.toValue) = .ok read) : s.isNan = false := by
  cases hnan : s.isNan with
  | false => rfl
  | true =>
    rw [shown_dump_of_isNan hnan] at h
    cases h

theorem number_of_sequence_dump {scalars read : List Scalar}
    (h : Decoder.sequence decode ((View.dump mode rounding).shown isMap
      (.sequence (scalars.map toValue))) = .ok read) : ∀ s ∈ scalars, s.isNan = false := by
  rw [View.sequence, List.map_map] at h
  obtain ⟨items, hitems, hall⟩ := Decoder.sequence_eq_ok.1 h
  cases hitems
  intro s hs
  obtain ⟨_, -, hdecode⟩ := exists_of_mem_left hall (List.mem_map_of_mem hs)
  exact number_of_decode_dump hdecode

end Scalar

namespace Bound

theorem number_of_decode_dump {bound read : Bound}
    (h : decode ((View.dump mode rounding).shown isMap bound.toValue) = .ok read) :
    ∀ s ∈ bound.scalars, s.isNan = false := by
  unfold decode at h
  cases bound with
  | scalar value =>
    refine List.forall_mem_singleton.2 ?_
    cases hnan : value.isNan with
    | false => rfl
    | true =>
      rw [toValue, Scalar.shown_dump_of_isNan hnan] at h
      cases h
  | each values =>
    split at h
    · rename_i hscalar
      rw [toValue, View.sequence] at hscalar
      cases hscalar
    · split at h
      · rename_i hvalues
        exact Scalar.number_of_sequence_dump hvalues
      · cases h

end Bound

namespace Record

variable {fields entries : List (String × Value)} {key : String}

/-- Null that is left out or kept is null where something is read. -/
theorem eq_shown_of_shows (hshows : Shows (.dump mode rounding) fields entries) (hkey : Value.IsFieldKey key)
    (hplain : plainMapKeys.contains key = false) (hlookup : fields.lookup key = some v)
    (hw : entries.lookup key = some w) : w = (View.dump mode rounding).shown false v := by
  rw [hshows key hkey.ne_versionKey, hlookup, Option.bind_some] at hw
  obtain ⟨stored, hstored, rfl⟩ := Option.map_eq_some_iff.1 hw
  unfold Value.stored at hstored
  split_ifs at hstored
  rw [hplain] at hstored
  rw [← Option.some.inj hstored]
  rfl

end Record

namespace Initializer

theorem number_of_decode_dump {init read : Initializer}
    (h : decode ((View.dump mode rounding).shown false init.toValue) = .ok read) :
    ∀ s ∈ init.scalars, s.isNan = false := by
  cases init with
  | seed => exact List.forall_mem_nil _
  | constant value =>
    have hrecord := (Decoder.tagged_shown_eq_ok (by simp) rfl rfl).1 h
    obtain ⟨entries, hshows, hread⟩ := Decoder.reads_of_record_shown (by simp) hrecord
    simp only [Record.reads_map, Record.reads_required] at hread
    obtain ⟨_, ⟨w, hlookup, hdecode⟩, -⟩ := hread
    have hw := Record.eq_shown_of_shows hshows (by decide) rfl rfl hlookup
    rw [hw] at hdecode
    exact List.forall_mem_singleton.2 (Scalar.number_of_decode_dump hdecode)
  | uniform low high =>
    have hrecord := (Decoder.tagged_shown_eq_ok (by simp) rfl rfl).1 h
    obtain ⟨entries, hshows, hread⟩ := Decoder.reads_of_record_shown (by simp) hrecord
    simp only [Record.reads_seq, Record.reads_map, Record.reads_required] at hread
    obtain ⟨_, ⟨_, ⟨w, hlow, hdecodeLow⟩, rfl⟩, _, ⟨w', hhigh, hdecodeHigh⟩, -⟩ := hread
    rw [Record.eq_shown_of_shows hshows (by decide) rfl rfl hlow] at hdecodeLow
    rw [Record.eq_shown_of_shows hshows (by decide) rfl rfl hhigh] at hdecodeHigh
    exact List.forall_mem_append.2
      ⟨Bound.number_of_decode_dump hdecodeLow, Bound.number_of_decode_dump hdecodeHigh⟩
  | custom code => exact List.forall_mem_nil _

end Initializer

namespace Environment

theorem number_of_decode_dump {env read : Environment}
    (h : decode ((View.dump mode rounding).shown false env.toValue) = .ok read) : env.NumericParameters := by
  obtain ⟨entries, hshows, hread⟩ := Decoder.reads_of_record_shown (by simp) h
  simp only [Record.reads_seq, Record.reads_map] at hread
  obtain ⟨_, -, parameter, hparameter, -⟩ := hread
  let table : Value := .table (env.parameter.entries.map fun entry => (entry.1, entry.2.toValue))
  have hnames : (View.dump mode rounding).shown true table = .table (env.parameter.entries.map fun entry =>
      (entry.1, (View.dump mode rounding).shown false entry.2.toValue)) := by
    rw [View.names _ _ (keyOrdered_map _ env.parameter.ordered), List.map_map]
    · rfl
    · intro entry hentry
      obtain ⟨init, -, rfl⟩ := List.mem_map.1 hentry
      exact init.2.toValue_ne_null
  have hfield : env.fields.lookup "parameter" = some table := rfl
  have hlookup : entries.lookup "parameter" = some ((View.dump mode rounding).shown true table) :=
    Record.lookup_of_shows hshows hfield (by decide) (fun h => by cases h)
  rcases Record.reads_withDefault.1 hparameter with ⟨hnone, -⟩ | ⟨w, hw, hdecode⟩
  · rw [hlookup] at hnone
    cases hnone
  · rw [hlookup, hnames] at hw
    cases hw
    obtain ⟨entries, hentries, read, hall, -⟩ := Decoder.textMap_eq_ok.1 hdecode
    cases hentries
    intro init hinit
    obtain ⟨entry, hentry, rfl⟩ := List.mem_map.1 hinit
    obtain ⟨_, -, hdecode, -⟩ := exists_of_mem_left hall (List.mem_map_of_mem hentry)
    exact Initializer.number_of_decode_dump hdecode

end Environment

theorem Module.number_of_decode_dump {module read : Module}
    (h : decode ((View.dump mode rounding).shown false module.toValue) = .ok read) : module.env.NumericParameters := by
  obtain ⟨made, hrecord, -⟩ := Decoder.refine_eq_ok.1 h
  obtain ⟨entries, hshows, hread⟩ := Decoder.reads_of_record_shown (by simp) hrecord
  simp only [Record.reads_seq, Record.reads_required] at hread
  obtain ⟨_, -, env, ⟨w, hlookup, hdecode⟩, -⟩ := hread
  rw [Record.eq_shown_of_shows hshows (by decide) rfl rfl hlookup] at hdecode
  exact Environment.number_of_decode_dump hdecode

/-- A context that comes out of the text of another shows that all was a number there. -/
theorem Context.number_of_decode_document {context read : Context}
    (h : decode ((context.document mode).mapFloats (Json.reread rounding)) = .ok read) :
    context.module.env.NumericParameters := by
  obtain ⟨shown, hshown, hshows⟩ := context.exists_shows_document mode rounding
  rw [hshown] at h
  obtain ⟨entries, hentries, hread⟩ := Decoder.record_eq_ok.1 h
  cases hentries
  simp only [Record.reads_seq, Record.reads_required] at hread
  obtain ⟨_, -, module, ⟨w, hlookup, hdecode⟩, -⟩ := hread
  rw [Record.eq_shown_of_shows hshows (by decide) rfl rfl hlookup] at hdecode
  exact Module.number_of_decode_dump hdecode

end ModelBinding
