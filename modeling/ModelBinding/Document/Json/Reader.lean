import ModelBinding.Document.Value
import ModelBinding.Document.Reader
import ModelBinding.Number.BestEffort

/-!
# Reading JSON

One pass over the characters. Of two entries with the same key the later counts, arrays and
objects nest at most 127 deep, and a number beyond the finite range is refused. Floating point
numbers are found with best effort unless the reader is asked for the nearest ones.
-/
namespace ModelBinding.Json

def isBlank (c : Char) : Bool := c == ' ' || c == '\n' || c == '\t' || c == '\r'

def skipBlank (s : List Char) : List Char := s.dropWhile isBlank

theorem skipBlank_length (s : List Char) : (skipBlank s).length ≤ s.length :=
  length_dropWhile_le _ _

def shortEscape? : Char → Option Char
  | '"' => some '"'
  | '\\' => some '\\'
  | '/' => some '/'
  | 'b' => some '\x08'
  | 'f' => some '\x0c'
  | 'n' => some '\n'
  | 'r' => some '\r'
  | 't' => some '\t'
  | _ => none

/-- The character of a code unit, which for a leading surrogate takes the one escaped after it. -/
def codeUnit (unit : Nat) (s : List Char) : Option (Char × List Char) :=
  if 0xDC00 ≤ unit ∧ unit < 0xE000 then none
  else if 0xD800 ≤ unit ∧ unit < 0xDC00 then
    match s with
    | '\\' :: 'u' :: r =>
      match hexDigits? 0 4 r with
      | some (trail, r) =>
        if 0xDC00 ≤ trail ∧ trail < 0xE000 then
          some (Char.ofNat (0x10000 + (unit - 0xD800) * 0x400 + (trail - 0xDC00)), r)
        else none
      | none => none
    | _ => none
  else some (Char.ofNat unit, s)

/-- The character that an escape stands for, read after its backslash. -/
def escape : List Char → Option (Char × List Char)
  | [] => none
  | c :: s =>
    if c = 'u' then
      match hexDigits? 0 4 s with
      | some (unit, r) => codeUnit unit r
      | none => none
    else (shortEscape? c).map (·, s)

theorem codeUnit_length {unit : Nat} {s r : List Char} {c : Char}
    (h : codeUnit unit s = some (c, r)) : r.length ≤ s.length := by
  unfold codeUnit at h
  split at h
  · simp at h
  split at h
  · split at h
    · split at h
      · rename_i heq
        split at h
        · have := hexDigits?_length heq
          grind
        · simp at h
      · simp at h
    · simp at h
  · grind

theorem escape_length {s r : List Char} {c : Char} (h : escape s = some (c, r)) :
    r.length < s.length := by
  unfold escape at h
  split at h
  · simp at h
  split at h
  · split at h
    · rename_i heq
      have := hexDigits?_length heq
      have := codeUnit_length h
      simp; omega
    · simp at h
  · obtain ⟨_, _, heq⟩ := Option.map_eq_some_iff.1 h
    simp_all

/-- One character of a string, written as it is or escaped, or the closing quote. -/
def stringPiece : Reader Piece := fun s =>
  match s with
  | [] => none
  | c :: r =>
    if c = '"' then some (.first (.last []))
    else if c = '\\' then
      match h : escape r with
      | none => none
      | some (d, r') => some (.behind ⟨.more [d], r', escape_length h⟩)
    else if c.toNat < 0x20 then none
    else some (.first (.more [c]))

def string : Reader String := fun s =>
  match s with
  | '"' :: r => (pieces stringPiece r).map fun read => (read.map String.ofList).behind
  | _ => none

/-- The digits after a point. Without a point there are none. -/
def fraction (s : List Char) : Option (List Char × List Char) :=
  match s with
  | '.' :: r =>
    match spanDigits r with
    | ([], _) => none
    | (digits, r) => some (digits, r)
  | _ => some ([], s)

/-- The power of ten after an `e`. -/
def exponent (s : List Char) : Option (Option Int × List Char) :=
  match s with
  | c :: r =>
    if c = 'e' ∨ c = 'E' then
      let (negative, r) := match r with
        | '-' :: r => (true, r)
        | '+' :: r => (false, r)
        | _ => (false, r)
      match spanDigits r with
      | ([], _) => none
      | (digits, r) =>
        let magnitude : Int := digitsValue digits
        some (some (if negative then -magnitude else magnitude), r)
    else some (none, s)
  | [] => some (none, s)

/-- An integer is signed or unsigned where it fits, and a floating point number beyond. -/
def integerValue (rounding : Rounding) (n : Numeral) : Value :=
  let i := n.toInt
  if n.negative ∧ i = 0 then .float (.zero true)
  else if -0x8000000000000000 ≤ i ∧ i < 0x8000000000000000 then .integer (.ofInt i)
  else if 0 ≤ i ∧ i < 0x10000000000000000 then .unsigned (.ofNat i.toNat)
  else .float (n.rounded rounding)

/-- A floating point number that is not finite is no value. -/
def finite? : Value → Option Value
  | .float (.infinite _) | .float .nan => none
  | v => some v

theorem fraction_length {s r digits : List Char} (h : fraction s = some (digits, r)) :
    r.length ≤ s.length := by
  unfold fraction at h
  split at h
  · rename_i t
    have := spanDigits_length t
    split at h <;> grind
  · grind

theorem exponent_length {s r : List Char} {e : Option Int} (h : exponent s = some (e, r)) :
    r.length ≤ s.length := by
  unfold exponent at h
  split at h
  · rename_i c t
    split at h
    · have h1 := spanDigits_length t
      have h2 := spanDigits_length t.tail
      simp only at h
      split at h
      · simp at h
      · grind
    · grind
  · grind

/-- An unsigned numeral, read after its sign. -/
def number (rounding : Rounding) (negative : Bool) : Reader Value := fun s =>
  match hw : spanDigits s with
  | ([], _) => none
  | (d :: ds, r) =>
    if d = '0' ∧ ds ≠ [] then none
    else
      match hf : fraction r with
      | none => none
      | some (fraction, r') =>
        match he : exponent r' with
        | none => none
        | some (exponent, r'') =>
          let numeral : Numeral := ⟨negative, d :: ds, fraction, exponent.getD 0⟩
          let value :=
            if fraction.isEmpty ∧ exponent.isNone then integerValue rounding numeral
            else .float (numeral.rounded rounding)
          (finite? value).map fun value => ⟨value, r'', by
            have h1 := spanDigits_length s
            have h2 := fraction_length hf
            have h3 := exponent_length he
            rw [hw] at h1
            simp only [List.length_cons] at h1
            omega⟩

theorem length_lt_of_skipBlank {s r : List Char} {c : Char} (h : skipBlank s = c :: r) :
    r.length < s.length := by
  have := skipBlank_length s
  rw [h] at this
  exact this

/-- Items after each other with commas between them, up to the closing mark. -/
def items {α : Type} (item : Reader α) (close : Char) (s : List Char) : Option (Read (List α) s) :=
  match item (skipBlank s) with
  | none => none
  | some ⟨a, r, hr⟩ =>
    match hb : skipBlank r with
    | [] => none
    | c :: r' =>
      have := skipBlank_length s
      have hb' : r'.length + 1 ≤ r.length := by simpa [hb] using skipBlank_length r
      if c = ',' then
        (items item close r').map fun read => (read.map (a :: ·)).widen (by omega)
      else if c = close then some ⟨[a], r', by omega⟩
      else none
termination_by s.length
decreasing_by omega

/-- A bracketed list, read after its opening mark. -/
def bracketed {α : Type} (item : Reader α) (close : Char) : Reader (List α) := fun s =>
  match h : skipBlank s with
  | [] => none
  | c :: r =>
    if c = close then some ⟨[], r, length_lt_of_skipBlank h⟩
    else items item close s

/-- A key, a colon and a value. -/
def member (value : Reader Value) : Reader (String × Value) := fun s =>
  match string s with
  | none => none
  | some ⟨key, r, hr⟩ =>
    match hc : skipBlank r with
    | ':' :: r' =>
      (value (skipBlank r')).map fun read => (read.map (key, ·)).widen (by
        have h1 := skipBlank_length r'
        have h2 := skipBlank_length r
        simp [hc] at h2; omega)
    | _ => none

/-- A value whose arrays and objects nest at most `depth` deep. -/
def value (rounding : Rounding) (depth : Nat) : Reader Value := fun s =>
  match s with
  | [] => none
  | c :: r =>
    if c = 'n' then word 'n' ['u', 'l', 'l'] .null (c :: r)
    else if c = 't' then word 't' ['r', 'u', 'e'] (.boolean true) (c :: r)
    else if c = 'f' then word 'f' ['a', 'l', 's', 'e'] (.boolean false) (c :: r)
    else if c = '"' then (string (c :: r)).map (Read.map .text)
    else if c = '-' then (number rounding true r).map .behind
    else if c = '[' then
      match depth with
      | 0 => none
      | depth + 1 =>
        (bracketed (value rounding depth) ']' r).map fun read => (read.map .sequence).behind
    else if c = '\x7b' then
      match depth with
      | 0 => none
      | depth + 1 =>
        (bracketed (member (value rounding depth)) '\x7d' r).map fun read => (read.map .ofEntries).behind
    else number rounding false (c :: r)

def maxDepth : Nat := 127

/-- The value that a whole text denotes. -/
def parse? (text : String) (rounding : Rounding := .bestEffort) : Option Value :=
  match value rounding maxDepth (skipBlank text.toList) with
  | none => none
  | some read => if skipBlank read.rest = [] then some read.value else none

end ModelBinding.Json
