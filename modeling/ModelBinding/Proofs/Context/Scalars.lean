import ModelBinding.Proofs.Context.Floats
import ModelBinding.Proofs.Document.Recovery

/-!
# Numbers of the environment in documents

A scalar that reading gives comes out of every document that can say it, with its number as it is read
there, and so do bounds, spaces, the range of the reward and initializers that hold nothing else. A dump
can say every scalar but one that is no number.
-/
namespace ModelBinding

variable {mode : DumpMode} {rounding : Rounding} {plainMap : Bool} {view : View} {isMap : Bool} {v w : Value} {depth : Nat}

namespace Scalar

/-- The scalar is one that reading gives, and is a number. -/
structure Exact (s : Scalar) : Prop where
  canonical : s.Canonical
  number : s.isNan = false

/-- What a scalar of a document is like: only a number that is not finite can fail to be one. -/
def FitsIn (v : Value) (s : Scalar) : Prop := s.Canonical ∧ (v.IsFinite → s.isNan = false)

theorem Exact.fitsIn {s : Scalar} (h : s.Exact) : s.FitsIn v := ⟨h.canonical, fun _ => h.number⟩

theorem FitsIn.of_part {s : Scalar} (h : s.FitsIn w) (hpart : v.IsFinite → w.IsFinite) :
    s.FitsIn v :=
  ⟨h.1, fun hv => h.2 (hpart hv)⟩

theorem FitsIn.of_lookup {s : Scalar} {fields : List (String × Value)} {key : String} (h : s.FitsIn w)
    (hlookup : fields.lookup key = some w) : s.FitsIn (.table fields) :=
  h.of_part fun hv => hv.of_lookup hlookup

theorem fitsIn_of_decode {s : Scalar} (h : decode v = .ok s) : s.FitsIn v := by
  unfold decode at h
  split at h
  · cases h
    exact ⟨trivial, fun _ => rfl⟩
  · rename_i n
    cases h
    refine ⟨canonical_ofUInt64 n, fun _ => ?_⟩
    unfold ofUInt64
    split_ifs
    · rfl
    · rfl
  · rename_i x
    cases h
    refine ⟨canonical_ofBinary64 x, fun hfinite => ?_⟩
    obtain ⟨negative, rank, rfl⟩ := Value.isFinite_float.1 hfinite
    rfl
  · cases h
    exact ⟨trivial, fun _ => rfl⟩
  · cases h
    exact ⟨trivial, fun _ => rfl⟩
  · cases h

theorem exact_ofBinary64 {x : Binary64} (h : x ≠ .nan) : (ofBinary64 x).Exact := by
  refine ⟨canonical_ofBinary64 x, ?_⟩
  cases x with
  | nan => exact absurd rfl h
  | infinite negative => rfl
  | finite negative rank => rfl

theorem Exact.eq_finite {x : Binary64} (h : (float x).Exact) : ∃ negative rank, x = .finite negative rank := by
  cases x with
  | nan => cases h.number
  | infinite negative => exact absurd rfl (h.canonical negative)
  | finite negative rank => exact ⟨negative, rank, rfl⟩

/-- The scalar is one that reading gives, and documents can say it. -/
structure SaidIn (view : View) (s : Scalar) : Prop where
  canonical : s.Canonical
  float : ∀ x, s = .float x → view.Says x

theorem Exact.saidIn_dump {s : Scalar} (h : s.Exact) : s.SaidIn (.dump mode rounding) where
  canonical := h.canonical
  float x hx := by
    rw [hx] at h
    exact h.eq_finite

theorem decode_shown {s : Scalar} (h : s.SaidIn view) :
    decode (view.shown isMap s.toValue) = .ok (s.mapFloats view.reread) := by
  cases s with
  | int i =>
    rw [toValue, view.integer]
    rfl
  | uint n =>
    have hlarge : ¬ n.toNat < 0x8000000000000000 := Nat.not_lt.2 h.canonical
    rw [toValue, view.unsigned]
    change Except.ok (ofUInt64 n) = _
    rw [ofUInt64, if_neg hlarge]
    rfl
  | float x =>
    rw [toValue, view.float isMap x (h.float x rfl), mapFloats]
    cases hread : view.reread x with
    | infinite negative => exact absurd (view.reread_infinite x negative hread) (h.canonical negative)
    | nan => rfl
    | finite negative rank => rfl
  | infinity negative =>
    rw [toValue, view.text]
    cases negative with
    | _ => rfl

theorem dumps {s : Scalar} (h : s.Canonical) : s.toValue.Dumps depth := by
  cases s with
  | int i => exact Value.dumps_integer i
  | uint n => exact Value.dumps_unsigned h
  | float x => exact Value.dumps_float x
  | infinity negative => exact Value.dumps_text _

theorem sequence_fitsIn {scalars : List Scalar} (h : Decoder.sequence decode v = .ok scalars) :
    ∀ s ∈ scalars, s.FitsIn v := by
  obtain ⟨items, rfl, hall⟩ := Decoder.sequence_eq_ok.1 h
  intro s hs
  obtain ⟨w, hw, hdecode⟩ := exists_of_mem_right hall hs
  exact (fitsIn_of_decode hdecode).of_part fun hfinite => Value.isFinite_sequence.1 hfinite w hw

theorem sequence_shown {scalars : List Scalar} (h : ∀ s ∈ scalars, s.SaidIn view) :
    Decoder.sequence decode (view.shown isMap (.sequence (scalars.map toValue))) =
      .ok (scalars.map (mapFloats view.reread)) :=
  Decoder.sequence_shown_map fun s hs => decode_shown (h s hs)

theorem dumps_sequence {scalars : List Scalar} (h : ∀ s ∈ scalars, s.Canonical) :
    (Value.sequence (scalars.map toValue)).Dumps (depth + 1) :=
  Value.dumps_sequence_map fun s hs => dumps (h s hs)

end Scalar

namespace Bound

theorem fitsIn_of_decode {bound : Bound} (h : decode v = .ok bound) :
    ∀ s ∈ bound.scalars, s.FitsIn v := by
  unfold decode at h
  split at h
  · rename_i value hvalue
    cases h
    exact List.forall_mem_singleton.2 (Scalar.fitsIn_of_decode hvalue)
  · split at h
    · rename_i values hvalues
      cases h
      exact Scalar.sequence_fitsIn hvalues
    · cases h

theorem fitsIn_of_reads {fields : List (String × Value)} {key : String} {bound : Bound}
    (h : (Record.required key decode).Reads fields bound) :
    ∀ s ∈ bound.scalars, s.FitsIn (.table fields) := by
  obtain ⟨w, hlookup, hdecode⟩ := Record.reads_required.1 h
  exact fun s hs => (fitsIn_of_decode hdecode s hs).of_lookup hlookup

theorem decode_scalar {value : Scalar} (h : Scalar.decode v = .ok value) :
    decode v = .ok (.scalar value) := by
  rw [decode, h]

/-- A sequence is no scalar. -/
theorem decode_each {items : List Value} {values : List Scalar}
    (h : Decoder.sequence Scalar.decode (.sequence items) = .ok values) :
    decode (.sequence items) = .ok (.each values) := by
  have hscalar : Scalar.decode (.sequence items) = .error (.here (.noAlternative "ScalarRepr")) := rfl
  simp only [decode, hscalar, h]

theorem decode_shown {bound : Bound} (h : ∀ s ∈ bound.scalars, s.SaidIn view) :
    decode (view.shown isMap bound.toValue) = .ok (bound.mapFloats view.reread) := by
  cases bound with
  | scalar value => exact decode_scalar (Scalar.decode_shown (List.forall_mem_singleton.1 h))
  | each values =>
    have hvalues : Decoder.sequence Scalar.decode
        (view.shown isMap (.sequence (values.map Scalar.toValue))) =
          .ok (values.map (Scalar.mapFloats view.reread)) := Scalar.sequence_shown h
    rw [view.sequence] at hvalues
    rw [toValue, view.sequence]
    exact decode_each hvalues

theorem dumps {bound : Bound} (h : ∀ s ∈ bound.scalars, s.Canonical) :
    bound.toValue.Dumps (depth + 1) := by
  cases bound with
  | scalar value => exact Scalar.dumps (List.forall_mem_singleton.1 h)
  | each values => exact Scalar.dumps_sequence h

theorem recovers {key : String} {fields : List (String × Value)} {bound : Bound}
    (h : ∀ s ∈ bound.scalars, s.SaidIn view) (hlookup : fields.lookup key = some bound.toValue)
    (hkey : Value.IsFieldKey key) :
    (Record.required key decode).Recovers view fields (bound.mapFloats view.reread) :=
  .required hlookup hkey (fun h => nomatch h) (decode_shown h)

end Bound

/-! ## Spaces -/

namespace Space

theorem default_exact : ∀ s ∈ default.scalars, s.Exact := by
  intro s hs
  have hs : s = .ofBinary64 (.zero false) ∨ s = .ofBinary64 (.ofInt 1) := by
    simpa [default, scalars, Bound.scalars] using hs
  rcases hs with hs | hs
  · rw [hs]
    exact Scalar.exact_ofBinary64 (Binary64.ofRank_ne_nan _ _)
  · rw [hs]
    exact Scalar.exact_ofBinary64 (Binary64.ofInt_ne_nan 1)

theorem fitsIn_of_decode {space : Space} (h : decode v = .ok space) :
    ∀ s ∈ space.scalars, s.FitsIn v := by
  obtain ⟨entries, name, variant, rfl, -, hvariant, hread⟩ := Decoder.tagged_eq_ok.1 h
  have hmem := mem_of_lookup hvariant
  simp only [List.mem_cons, Prod.mk.injEq, List.not_mem_nil, or_false] at hmem
  rcases hmem with ⟨rfl, rfl⟩ | ⟨rfl, rfl⟩ | ⟨rfl, rfl⟩ | ⟨rfl, rfl⟩
  · obtain ⟨entries, hentries, hread⟩ := Decoder.record_eq_ok.1 hread
    cases hentries
    simp only [Record.reads_seq, Record.reads_map] at hread
    obtain ⟨_, ⟨_, ⟨_, ⟨low, hlow, rfl⟩, high, hhigh, rfl⟩, shape, -, rfl⟩, type, -, rfl⟩ := hread
    exact List.forall_mem_append.2 ⟨Bound.fitsIn_of_reads hlow, Bound.fitsIn_of_reads hhigh⟩
  all_goals
    obtain ⟨entries, hentries, hread⟩ := Decoder.record_eq_ok.1 hread
    obtain ⟨_, -, rfl⟩ := Record.reads_map.1 hread
    exact List.forall_mem_nil _

/-- A space that is left out holds numbers only. -/
theorem fitsIn_of_reads {fields : List (String × Value)} {key : String} {space : Space}
    (h : (Record.withDefault key decode default).Reads fields space) :
    ∀ s ∈ space.scalars, s.FitsIn (.table fields) := by
  rcases Record.reads_withDefault.1 h with ⟨-, rfl⟩ | ⟨w, hlookup, hdecode⟩
  · exact fun s hs => (default_exact s hs).fitsIn
  · exact fun s hs => (fitsIn_of_decode hdecode s hs).of_lookup hlookup

theorem decode_shown {space : Space} (h : ∀ s ∈ space.scalars, s.SaidIn view) :
    decode (view.shown false space.toValue) = .ok (space.mapFloats view.reread) := by
  cases space with
  | box low high shape type =>
    obtain ⟨hlow, hhigh⟩ := List.forall_mem_append.1 h
    apply (Decoder.tagged_shown_eq_ok (by simp) rfl rfl).2
    apply Decoder.record_shown (by simp)
    refine .seq (.seq (.seq (.map box ?low) ?high) ?shape) ?type
    case low => exact Bound.recovers hlow rfl (by decide)
    case high => exact Bound.recovers hhigh rfl (by decide)
    case shape =>
      exact .required rfl (by decide) (fun h => nomatch h)
        (Decoder.sequence_shown fun n _ => Decoder.uint64_shown n)
    case type =>
      refine .required rfl (by decide) (fun h => nomatch h) ?_
      rw [view.text]
      cases type with
      | _ => rfl
  | discrete n =>
    apply (Decoder.tagged_shown_eq_ok (by simp) rfl rfl).2
    exact Decoder.record_shown (by simp) (.map discrete (.int64 rfl (by decide)))
  | multiDiscrete cardinalities =>
    apply (Decoder.tagged_shown_eq_ok (by simp) rfl rfl).2
    apply Decoder.record_shown (by simp)
    refine .map multiDiscrete (.required rfl (by decide) (fun h => nomatch h) ?_)
    exact Decoder.sequence_shown fun n _ => by rw [view.integer]; rfl
  | multiBinary n =>
    apply (Decoder.tagged_shown_eq_ok (by simp) rfl rfl).2
    exact Decoder.record_shown (by simp) (.map multiBinary (.int64 rfl (by decide)))

theorem dumps {space : Space} (h : ∀ s ∈ space.scalars, s.Canonical) :
    space.toValue.Dumps (depth + 2) := by
  cases space with
  | box low high shape type =>
    obtain ⟨hlow, hhigh⟩ := List.forall_mem_append.1 h
    have hlow : low.toValue.Dumps (depth + 1) := Bound.dumps hlow
    have hhigh : high.toValue.Dumps (depth + 1) := Bound.dumps hhigh
    have hshape : (Value.sequence (shape.map .ofUInt64)).Dumps (depth + 1) :=
      Value.dumps_sequence_map fun n _ => Value.dumps_ofUInt64 n
    exact Value.dumps_ofEntries (by simp [hlow, hhigh, hshape])
  | discrete n => exact Value.dumps_ofEntries (by simp)
  | multiDiscrete cardinalities =>
    have hcardinalities : (Value.sequence (cardinalities.map .integer)).Dumps (depth + 1) :=
      Value.dumps_sequence_map fun n _ => Value.dumps_integer n
    exact Value.dumps_ofEntries (by simp [hcardinalities])
  | multiBinary n => exact Value.dumps_ofEntries (by simp)

end Space

/-! ## The range of the reward -/

namespace RewardRange

def scalars (range : RewardRange) : List Scalar := [range.low, range.high]

theorem unbounded_exact : ∀ s ∈ unbounded.scalars, s.Exact := by
  intro s hs
  have hs : s = .infinity true ∨ s = .infinity false := by
    simpa [unbounded, scalars] using hs
  rcases hs with rfl | rfl
  · exact ⟨trivial, rfl⟩
  · exact ⟨trivial, rfl⟩

/-- Neither bound is an integer. -/
def Valid (range : RewardRange) : Prop :=
  range.low.isInteger = false ∧ range.high.isInteger = false

theorem ofScalars?_eq_some {list : List Scalar} {range : RewardRange} :
    ofScalars? list = some range ↔ list = range.scalars ∧ range.Valid := by
  unfold ofScalars?
  split
  · rename_i low high
    simp only [Option.ite_none_left_eq_some, Option.some.injEq, Bool.or_eq_true, not_or,
      Bool.not_eq_true]
    constructor
    · rintro ⟨hvalid, rfl⟩
      exact ⟨rfl, hvalid⟩
    · rintro ⟨hlist, hvalid⟩
      cases hlist
      exact ⟨hvalid, rfl⟩
  · rename_i hother
    refine iff_of_false (fun h => nomatch h) ?_
    rintro ⟨rfl, -⟩
    exact hother _ _ rfl

theorem of_decode {range : RewardRange} (h : decode v = .ok range) :
    range.Valid ∧ ∀ s ∈ range.scalars, s.FitsIn v := by
  obtain ⟨list, hlist, hrule⟩ := Decoder.refine_eq_ok.1 h
  split at hrule
  · rename_i hsome
    cases hrule
    obtain ⟨rfl, hvalid⟩ := ofScalars?_eq_some.1 hsome
    exact ⟨hvalid, Scalar.sequence_fitsIn hlist⟩
  · cases hrule

theorem of_reads {fields : List (String × Value)} {key : String} {range : RewardRange}
    (h : (Record.withDefault key decode unbounded).Reads fields range) :
    range.Valid ∧ ∀ s ∈ range.scalars, s.FitsIn (.table fields) := by
  rcases Record.reads_withDefault.1 h with ⟨-, rfl⟩ | ⟨w, hlookup, hdecode⟩
  · exact ⟨⟨rfl, rfl⟩, fun s hs => (unbounded_exact s hs).fitsIn⟩
  · obtain ⟨hvalid, hscalars⟩ := of_decode hdecode
    exact ⟨hvalid, fun s hs => (hscalars s hs).of_lookup hlookup⟩

theorem valid_mapFloats {range : RewardRange} (f : Binary64 → Binary64) (h : range.Valid) :
    (range.mapFloats f).Valid :=
  ⟨(Scalar.isInteger_mapFloats range.low).trans h.1, (Scalar.isInteger_mapFloats range.high).trans h.2⟩

theorem decode_shown {range : RewardRange} (hvalid : range.Valid) (h : ∀ s ∈ range.scalars, s.SaidIn view) :
    decode (view.shown isMap range.toValue) = .ok (range.mapFloats view.reread) := by
  have hrange : ofScalars? (range.mapFloats view.reread).scalars = some (range.mapFloats view.reread) :=
    ofScalars?_eq_some.2 ⟨rfl, valid_mapFloats view.reread hvalid⟩
  refine Decoder.refine_eq_ok.2 ⟨(range.mapFloats view.reread).scalars, Scalar.sequence_shown h, ?_⟩
  rw [hrange]

theorem dumps {range : RewardRange} (h : ∀ s ∈ range.scalars, s.Canonical) :
    range.toValue.Dumps (depth + 1) :=
  Scalar.dumps_sequence h

end RewardRange

/-! ## Initializers -/

namespace Initializer

theorem fitsIn_of_decode {init : Initializer} (h : decode v = .ok init) :
    ∀ s ∈ init.scalars, s.FitsIn v := by
  obtain ⟨entries, name, variant, rfl, -, hvariant, hread⟩ := Decoder.tagged_eq_ok.1 h
  have hmem := mem_of_lookup hvariant
  simp only [List.mem_cons, Prod.mk.injEq, List.not_mem_nil, or_false] at hmem
  rcases hmem with ⟨rfl, rfl⟩ | ⟨rfl, rfl⟩ | ⟨rfl, rfl⟩ | ⟨rfl, rfl⟩
  · obtain ⟨entries, hentries, hread⟩ := Decoder.record_eq_ok.1 hread
    cases Record.reads_pure.1 hread
    exact List.forall_mem_nil _
  · obtain ⟨entries, hentries, hread⟩ := Decoder.record_eq_ok.1 hread
    cases hentries
    simp only [Record.reads_map, Record.reads_required] at hread
    obtain ⟨value, ⟨w, hlookup, hvalue⟩, rfl⟩ := hread
    refine List.forall_mem_singleton.2 ?_
    exact (Scalar.fitsIn_of_decode hvalue).of_lookup hlookup
  · obtain ⟨entries, hentries, hread⟩ := Decoder.record_eq_ok.1 hread
    cases hentries
    simp only [Record.reads_seq, Record.reads_map] at hread
    obtain ⟨_, ⟨low, hlow, rfl⟩, high, hhigh, rfl⟩ := hread
    exact List.forall_mem_append.2 ⟨Bound.fitsIn_of_reads hlow, Bound.fitsIn_of_reads hhigh⟩
  · obtain ⟨entries, hentries, hread⟩ := Decoder.record_eq_ok.1 hread
    obtain ⟨code, -, rfl⟩ := Record.reads_map.1 hread
    exact List.forall_mem_nil _

theorem decode_shown {init : Initializer} (h : ∀ s ∈ init.scalars, s.SaidIn view) :
    decode (view.shown false init.toValue) = .ok (init.mapFloats view.reread) := by
  cases init with
  | seed =>
    apply (Decoder.tagged_shown_eq_ok (by simp) rfl rfl).2
    exact Decoder.record_shown (by simp) (.pure seed)
  | constant value =>
    have hvalue := List.forall_mem_singleton.1 h
    apply (Decoder.tagged_shown_eq_ok (by simp) rfl rfl).2
    apply Decoder.record_shown (by simp)
    exact .map constant (.required rfl (by decide) (fun h => nomatch h) (Scalar.decode_shown hvalue))
  | uniform low high =>
    obtain ⟨hlow, hhigh⟩ := List.forall_mem_append.1 h
    apply (Decoder.tagged_shown_eq_ok (by simp) rfl rfl).2
    apply Decoder.record_shown (by simp)
    refine .seq (.map uniform ?low) ?high
    case low => exact Bound.recovers hlow rfl (by decide)
    case high => exact Bound.recovers hhigh rfl (by decide)
  | custom code =>
    apply (Decoder.tagged_shown_eq_ok (by simp) rfl rfl).2
    exact Decoder.record_shown (by simp) (.map custom (.text rfl (by decide)))

theorem toValue_ne_null (init : Initializer) : init.toValue ≠ .null := by
  cases init with
  | _ => exact fun h => nomatch h

theorem dumps {init : Initializer} (h : ∀ s ∈ init.scalars, s.Canonical) :
    init.toValue.Dumps (depth + 2) := by
  cases init with
  | seed => exact Value.dumps_ofEntries (by simp)
  | constant value =>
    have hvalue : value.toValue.Dumps (depth + 1) := Scalar.dumps (List.forall_mem_singleton.1 h)
    exact Value.dumps_ofEntries (by simp [hvalue])
  | uniform low high =>
    obtain ⟨hlow, hhigh⟩ := List.forall_mem_append.1 h
    have hlow : low.toValue.Dumps (depth + 1) := Bound.dumps hlow
    have hhigh : high.toValue.Dumps (depth + 1) := Bound.dumps hhigh
    exact Value.dumps_ofEntries (by simp [hlow, hhigh])
  | custom code => exact Value.dumps_ofEntries (by simp)

end Initializer

end ModelBinding
