import ModelBinding.Document.Reader

/-!
# Taking a value off the front

What it means that a reader takes a value off the front of a text and leaves the rest, for words and
for texts that are read piece by piece.
-/
namespace ModelBinding

/-- The reader takes `a` off the front of `s`, and `rest` follows. -/
def Reader.Takes {α : Type} (reader : Reader α) (s : List Char) (a : α) (rest : List Char) : Prop :=
  ∃ read, reader s = some read ∧ read.value = a ∧ read.rest = rest

/-- What the reader finds at the front of `s`, and what follows. -/
def Reader.found? {α : Type} (reader : Reader α) (s : List Char) : Option (α × List Char) :=
  (reader s).map fun read => (read.value, read.rest)

theorem Reader.takes_iff {α : Type} {reader : Reader α} {s rest : List Char} {a : α} :
    reader.Takes s a rest ↔ reader.found? s = some (a, rest) := by
  simp only [Takes, found?, Option.map_eq_some_iff, Prod.mk.injEq]

section Outer

variable {α β : Type} {reader : Reader α} {outer : Reader β} {c : Char} {r rest : List Char} {a : α}

/-- A reader that makes something of what another one finds. -/
theorem Reader.Takes.map (f : α → β) (houter : outer r = (reader r).map (Read.map f))
    (h : reader.Takes r a rest) : outer.Takes r (f a) rest := by
  obtain ⟨read, hread, rfl, rfl⟩ := h
  exact ⟨read.map f, by rw [houter, hread]; rfl, rfl, rfl⟩

/-- The same with what another one finds behind the first character. -/
theorem Reader.Takes.through (f : α → β)
    (houter : outer (c :: r) = (reader r).map fun read => (read.map f).behind)
    (h : reader.Takes r a rest) : outer.Takes (c :: r) (f a) rest := by
  obtain ⟨read, hread, rfl, rfl⟩ := h
  exact ⟨(read.map f).behind, by rw [houter, hread]; rfl, rfl, rfl⟩

/-- The same with what another one finds further behind. -/
theorem Reader.Takes.further {s : List Char} (f : α → β) (hle : r.length ≤ s.length)
    (houter : outer s = (reader r).map fun read => (read.map f).widen hle)
    (h : reader.Takes r a rest) : outer.Takes s (f a) rest := by
  obtain ⟨read, hread, rfl, rfl⟩ := h
  exact ⟨(read.map f).widen hle, by rw [houter, hread]; rfl, rfl, rfl⟩

/-- A reader finds what another one finds further behind. -/
theorem Reader.found?_widen {other : Reader α} {s : List Char} (hle : r.length ≤ s.length)
    (hother : other s = (reader r).map (Read.widen · hle)) : other.found? s = reader.found? r := by
  rw [found?, hother, Option.map_map]
  rfl

end Outer

theorem after?_append (word rest : List Char) : after? word (word ++ rest) = some rest := by
  induction word with
  | nil => rfl
  | cons c cs ih => simpa [after?] using ih

theorem takes_word {α : Type} (first : Char) (text rest : List Char) (a : α) :
    (word first text a).Takes (first :: text ++ rest) a rest := by
  have h := after?_append (first :: text) rest
  unfold Reader.Takes word
  split
  · simp_all
  · rename_i r hr
    rw [h] at hr
    cases hr
    exact ⟨_, rfl, rfl, rfl⟩

theorem takes_pieces_last {piece : Reader Piece} {s chars rest : List Char}
    (h : piece.Takes s (.last chars) rest) : Reader.Takes (pieces piece) s chars rest := by
  obtain ⟨⟨_, _, hlt⟩, hs, rfl, rfl⟩ := h
  refine ⟨⟨chars, _, hlt⟩, ?_, rfl, rfl⟩
  rw [pieces, hs]

theorem takes_pieces_more {piece : Reader Piece} {s chars after more rest : List Char}
    (h : piece.Takes s (.more chars) after) (hmore : Reader.Takes (pieces piece) after more rest) :
    Reader.Takes (pieces piece) s (chars ++ more) rest := by
  obtain ⟨⟨_, _, hlt⟩, hs, rfl, rfl⟩ := h
  obtain ⟨⟨_, _, hlt'⟩, hs', rfl, rfl⟩ := hmore
  refine ⟨⟨chars ++ _, _, Nat.lt_trans hlt' hlt⟩, ?_, rfl, rfl⟩
  rw [pieces, hs]
  simp only [hs']
  rfl

/-- The characters of one kind at the front are those before the first of another kind. -/
theorem span_append {p : Char → Bool} {run rest : List Char} (hrun : ∀ c ∈ run, p c = true)
    (hrest : ∀ c ∈ rest.head?, p c = false) :
    (run ++ rest).takeWhile p = run ∧ (run ++ rest).dropWhile p = rest := by
  rw [List.takeWhile_append_of_pos hrun, List.dropWhile_append_of_pos hrun]
  cases rest with
  | nil => simp
  | cons c rest => simp [hrest c rfl]

end ModelBinding
