/-!
# Reading from the front of a text

A reader takes a value off the front of the characters and says what follows, together with the
fact that this is shorter. Readers that call each other in a loop end for that reason.
-/
namespace ModelBinding

/-- A value read off the front of `s`, and what follows it. -/
structure Read (α : Type) (s : List Char) where
  value : α
  rest : List Char
  shorter : rest.length < s.length

abbrev Reader (α : Type) := (s : List Char) → Option (Read α s)

/-- What was read from a part of `s` is read from `s`. -/
def Read.widen {α : Type} {r s : List Char} (read : Read α r) (h : r.length ≤ s.length) : Read α s :=
  ⟨read.value, read.rest, Nat.lt_of_lt_of_le read.shorter h⟩

/-- What was read from further behind. -/
def Read.later {α : Type} {r s : List Char} (read : Read α r) (h : r.length < s.length) : Read α s :=
  read.widen (Nat.le_of_lt h)

/-- What was read from behind the first character. -/
def Read.behind {α : Type} {c : Char} {r : List Char} (read : Read α r) : Read α (c :: r) :=
  read.widen (Nat.le_succ _)

/-- A value for the first character alone. -/
def Read.first {α : Type} {c : Char} {r : List Char} (value : α) : Read α (c :: r) :=
  ⟨value, r, Nat.lt_succ_self _⟩

def Read.map {α β : Type} {s : List Char} (f : α → β) (read : Read α s) : Read β s :=
  ⟨f read.value, read.rest, read.shorter⟩

section Fields

variable {α β : Type} {c : Char} {r : List Char}

@[simp] theorem Read.behind_value (read : Read α r) :
    (read.behind : Read α (c :: r)).value = read.value := rfl

@[simp] theorem Read.behind_rest (read : Read α r) :
    (read.behind : Read α (c :: r)).rest = read.rest := rfl

@[simp] theorem Read.first_value (value : α) : (Read.first value : Read α (c :: r)).value = value := rfl

@[simp] theorem Read.first_rest (value : α) : (Read.first value : Read α (c :: r)).rest = r := rfl

@[simp] theorem Read.map_value (f : α → β) (read : Read α r) : (read.map f).value = f read.value := rfl

@[simp] theorem Read.map_rest (f : α → β) (read : Read α r) : (read.map f).rest = read.rest := rfl

end Fields

/-- What follows the given characters at the front. -/
def after? : List Char → List Char → Option (List Char)
  | [], s => some s
  | _ :: _, [] => none
  | c :: cs, d :: s => if c = d then after? cs s else none

theorem after?_length {word s r : List Char} (h : after? word s = some r) :
    r.length + word.length = s.length := by
  induction word generalizing s with
  | nil => simp_all [after?]
  | cons c cs ih =>
    cases s with
    | nil => simp [after?] at h
    | cons d s =>
      simp only [after?] at h
      split at h
      · have := ih h
        simp only [List.length_cons]; omega
      · simp at h

/-- A word that stands for a value. -/
def word {α : Type} (first : Char) (text : List Char) (value : α) : Reader α := fun s =>
  match h : after? (first :: text) s with
  | none => none
  | some r => some ⟨value, r, by
      have := after?_length h
      simp only [List.length_cons] at this
      omega⟩

theorem length_dropWhile_le (p : α → Bool) (s : List α) : (s.dropWhile p).length ≤ s.length :=
  (List.dropWhile_suffix p).length_le

/-- A part of a quoted text: some characters, after which the text goes on or has ended. -/
inductive Piece where
  | more (chars : List Char)
  | last (chars : List Char)

/-- A text read piece by piece up to the one that ends it. -/
def pieces (piece : Reader Piece) (s : List Char) : Option (Read (List Char) s) :=
  match piece s with
  | none => none
  | some ⟨.last chars, r, h⟩ => some ⟨chars, r, h⟩
  | some ⟨.more chars, r, h⟩ =>
    (pieces piece r).map fun read => (read.map (chars ++ ·)).widen (Nat.le_of_lt h)
termination_by s.length

/-- The value of a hexadecimal digit. -/
def hexDigit? (c : Char) : Option Nat :=
  if '0' ≤ c ∧ c ≤ '9' then some (c.toNat - '0'.toNat)
  else if 'a' ≤ c ∧ c ≤ 'f' then some (c.toNat - 'a'.toNat + 10)
  else if 'A' ≤ c ∧ c ≤ 'F' then some (c.toNat - 'A'.toNat + 10)
  else none

/-- The number of exactly `count` hexadecimal digits, continuing from `start`. -/
def hexDigits? (start : Nat) : (count : Nat) → List Char → Option (Nat × List Char)
  | 0, s => some (start, s)
  | _ + 1, [] => none
  | count + 1, c :: s =>
    match hexDigit? c with
    | none => none
    | some d => hexDigits? (16 * start + d) count s

theorem hexDigits?_length {start count n : Nat} {s r : List Char}
    (h : hexDigits? start count s = some (n, r)) : r.length + count = s.length := by
  induction count generalizing start s with
  | zero => simp_all [hexDigits?]
  | succ count ih =>
    cases s with
    | nil => simp [hexDigits?] at h
    | cons c s =>
      simp only [hexDigits?] at h
      split at h
      · simp at h
      · have := ih h
        simp only [List.length_cons]; omega

end ModelBinding
