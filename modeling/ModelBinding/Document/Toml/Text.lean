import ModelBinding.Document.Reader

/-!
# TOML texts and keys

The four forms of strings, and keys. A line break in a string is a line feed, however it is
written.
-/
namespace ModelBinding.Toml

def isBlank (c : Char) : Bool := c == ' ' || c == '\t'

def skipBlank (s : List Char) : List Char := s.dropWhile isBlank

theorem skipBlank_length (s : List Char) : (skipBlank s).length ≤ s.length :=
  length_dropWhile_le _ _

theorem length_lt_of_skipBlank {s r : List Char} {c : Char} (h : skipBlank s = c :: r) :
    r.length < s.length := by
  have := skipBlank_length s
  rw [h] at this
  exact this

/-- What follows a line break. -/
def newline? : List Char → Option (List Char)
  | '\n' :: r => some r
  | '\r' :: '\n' :: r => some r
  | _ => none

theorem newline?_length {s r : List Char} (h : newline? s = some r) : r.length < s.length := by
  unfold newline? at h
  split at h <;> grind

/-- A character that stands for itself in every form of string. -/
def isPrintable (c : Char) : Bool := c == '\t' || (0x20 ≤ c.toNat && c.toNat != 0x7f)

def shortEscape? : Char → Option Char
  | 'b' => some '\x08'
  | 't' => some '\t'
  | 'n' => some '\n'
  | 'f' => some '\x0c'
  | 'r' => some '\r'
  | '"' => some '"'
  | '\\' => some '\\'
  | _ => none

/-- The character with a code point, if it is one. -/
def scalarValue? (n : Nat) : Option Char :=
  if n.isValidChar then some (Char.ofNat n) else none

/-- The character whose code point is written in that many hexadecimal digits. -/
def codePoint (digits : Nat) (s : List Char) : Option (Char × List Char) :=
  match hexDigits? 0 digits s with
  | none => none
  | some (n, r) => (scalarValue? n).map (·, r)

/-- The character that an escape stands for, read after its backslash. -/
def escape : List Char → Option (Char × List Char)
  | [] => none
  | c :: s =>
    if c = 'u' then codePoint 4 s
    else if c = 'U' then codePoint 8 s
    else (shortEscape? c).map (·, s)

theorem codePoint_length {digits : Nat} {s r : List Char} {c : Char}
    (h : codePoint digits s = some (c, r)) : r.length ≤ s.length := by
  unfold codePoint at h
  split at h
  · simp at h
  · rename_i heq
    have := hexDigits?_length heq
    obtain ⟨_, _, hr⟩ := Option.map_eq_some_iff.1 h
    simp only [Prod.mk.injEq] at hr
    obtain ⟨-, rfl⟩ := hr
    omega

theorem escape_length {s r : List Char} {c : Char} (h : escape s = some (c, r)) :
    r.length < s.length := by
  unfold escape at h
  split at h
  · simp at h
  · split at h
    · have := codePoint_length h
      simp; omega
    · split at h
      · have := codePoint_length h
        simp; omega
      · obtain ⟨_, _, heq⟩ := Option.map_eq_some_iff.1 h
        simp_all

/-- An escape, read with its backslash. -/
def escapePiece : Reader Piece := fun s =>
  match s with
  | [] => none
  | _ :: r =>
    match h : escape r with
    | none => none
    | some (d, r') => some (.behind ⟨.more [d], r', escape_length h⟩)

def basicPiece : Reader Piece := fun s =>
  match s with
  | [] => none
  | c :: r =>
    if c = '"' then some (.first (.last []))
    else if c = '\\' then escapePiece (c :: r)
    else if isPrintable c then some (.first (.more [c]))
    else none

def literalPiece : Reader Piece := fun s =>
  match s with
  | [] => none
  | c :: _ =>
    if c = '\'' then some (.first (.last []))
    else if isPrintable c then some (.first (.more [c]))
    else none

/-- A run of quotes: up to two belong to the text, the last three of up to five end it. -/
def quotesPiece (quote : Char) : Reader Piece := fun s =>
  match s.takeWhile (· == quote), s.dropWhile (· == quote), List.takeWhile_append_dropWhile with
  | [], _, _ => none
  | q :: run, r, split =>
    have shorter : r.length < s.length := by
      rw [← split, List.length_append, List.length_cons]; omega
    if run.length < 2 then some ⟨.more (q :: run), r, shorter⟩
    else if run.length < 5 then some ⟨.last (run.drop 2), r, shorter⟩
    else none

/-- A line break or a character that stands for itself. -/
def linePiece : Reader Piece := fun s =>
  match h : newline? s with
  | some r => some ⟨.more ['\n'], r, newline?_length h⟩
  | none =>
    match s with
    | [] => none
    | c :: _ => if isPrintable c then some (.first (.more [c])) else none

/-- Blanks and line breaks. -/
def skipLines : List Char → List Char
  | [] => []
  | c :: r =>
    if isBlank c || c == '\n' || (c == '\r' && r.head? == some '\n') then skipLines r else c :: r

theorem skipLines_length (s : List Char) : (skipLines s).length ≤ s.length := by
  induction s with
  | nil => simp [skipLines]
  | cons c r ih =>
    unfold skipLines
    split
    · simp; omega
    · simp

/-- A backslash at the end of a line takes the line break and the blanks after it away. -/
def foldedLine? (s : List Char) : Option (List Char) :=
  (newline? (skipBlank s)).map skipLines

theorem foldedLine?_length {s r : List Char} (h : foldedLine? s = some r) :
    r.length < s.length := by
  obtain ⟨t, ht, rfl⟩ := Option.map_eq_some_iff.1 h
  have := newline?_length ht
  have := skipBlank_length s
  have := skipLines_length t
  omega

def multilineBasicPiece : Reader Piece := fun s =>
  match s with
  | [] => none
  | c :: r =>
    if c = '"' then quotesPiece '"' (c :: r)
    else if c = '\\' then
      match h : foldedLine? r with
      | some r' => some (.behind ⟨.more [], r', foldedLine?_length h⟩)
      | none => escapePiece (c :: r)
    else linePiece (c :: r)

def multilineLiteralPiece : Reader Piece := fun s =>
  match s with
  | [] => none
  | c :: r => if c = '\'' then quotesPiece '\'' (c :: r) else linePiece (c :: r)

/-- The text without a line break at its very beginning. -/
def dropNewline (s : List Char) : List Char := (newline? s).getD s

theorem dropNewline_length (s : List Char) : (dropNewline s).length ≤ s.length := by
  unfold dropNewline
  cases h : newline? s with
  | none => simp
  | some r => exact Nat.le_of_lt (newline?_length h)

/-- A string on one line. -/
def shortString : Reader String := fun s =>
  match s with
  | '"' :: r =>
    (pieces basicPiece r).map fun read => (read.map String.ofList).behind
  | '\'' :: r =>
    (pieces literalPiece r).map fun read => (read.map String.ofList).behind
  | _ => none

def string : Reader String := fun s =>
  match s with
  | '"' :: '"' :: '"' :: r =>
    (pieces multilineBasicPiece (dropNewline r)).map fun read =>
      (read.map String.ofList).widen (by have := dropNewline_length r; simp; omega)
  | '\'' :: '\'' :: '\'' :: r =>
    (pieces multilineLiteralPiece (dropNewline r)).map fun read =>
      (read.map String.ofList).widen (by have := dropNewline_length r; simp; omega)
  | s => shortString s

/-- A character of a key that is not quoted. -/
def isBare (c : Char) : Bool := c.isAlphanum || c == '_' || c == '-'

/-- One part of a key. -/
def simpleKey : Reader String := fun s =>
  match s.takeWhile isBare, s.dropWhile isBare, List.takeWhile_append_dropWhile with
  | [], _, _ => shortString s
  | c :: name, r, split => some ⟨String.ofList (c :: name), r, by
      rw [← split, List.length_append, List.length_cons]; omega⟩

/-- The parts of a key with points between them. -/
def key (s : List Char) : Option (Read (List String) s) :=
  match simpleKey s with
  | none => none
  | some ⟨name, r, hr⟩ =>
    match h : skipBlank r with
    | '.' :: r' =>
      have hlen : (skipBlank r').length < s.length := by
        have h1 := skipBlank_length r
        have h2 := skipBlank_length r'
        rw [h] at h1
        simp at h1; omega
      (key (skipBlank r')).map fun read => (read.map (name :: ·)).widen (Nat.le_of_lt hlen)
    | _ => some ⟨[name], r, hr⟩
termination_by s.length

end ModelBinding.Toml
