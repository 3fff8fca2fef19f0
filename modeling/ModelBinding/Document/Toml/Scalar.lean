import ModelBinding.Document.Toml.Text
import ModelBinding.Document.Toml.Tree
import ModelBinding.Number.Numeral

/-!
# TOML numbers and dates

Integers have 64 bits and a sign, in four bases; underscores may stand between digits. A date is
kept as its text in a fixed form.
-/
namespace ModelBinding.Toml

/-- Digits, with an underscore between some of them. -/
def digitRun (isDigit : Char → Bool) : List Char → List Char × List Char
  | [] => ([], [])
  | c :: s =>
    if isDigit c then
      let (digits, r) := digitRun isDigit s
      (c :: digits, r)
    else if c = '_' then
      match s with
      | d :: _ =>
        if isDigit d then digitRun isDigit s else ([], c :: s)
      | [] => ([], [c])
    else ([], c :: s)

/-- A run of digits that begins with one. -/
def digits (isDigit : Char → Bool) (s : List Char) : Option (List Char × List Char) :=
  match s with
  | c :: _ => if isDigit c then some (digitRun isDigit s) else none
  | [] => none

theorem digitRun_length (isDigit : Char → Bool) (s : List Char) :
    (digitRun isDigit s).2.length ≤ s.length := by
  fun_induction digitRun isDigit s <;> grind

theorem digits_length {isDigit : Char → Bool} {s ds r : List Char}
    (h : digits isDigit s = some (ds, r)) : r.length < s.length := by
  unfold digits at h
  split at h
  · split at h
    · rename_i c t hc
      have hr := digitRun_length isDigit t
      unfold digitRun at h
      simp only [hc, if_true, Option.some.injEq, Prod.mk.injEq] at h
      obtain ⟨-, rfl⟩ := h
      simp; omega
    · simp at h
  · simp at h

/-- The sign of a number, if it has one, and what follows. -/
def sign (s : List Char) : Bool × List Char :=
  match s with
  | '-' :: r => (true, r)
  | '+' :: r => (false, r)
  | _ => (false, s)

theorem sign_length (s : List Char) : (sign s).2.length ≤ s.length := by
  unfold sign
  split <;> simp

def radixOf? : Char → Option Nat
  | 'x' => some 16
  | 'o' => some 8
  | 'b' => some 2
  | _ => none

def digitsIn (radix : Nat) (c : Char) : Bool :=
  match hexDigit? c with
  | some d => decide (d < radix)
  | none => false

def valueIn (radix : Nat) (digits : List Char) : Nat :=
  digits.foldl (fun n c => radix * n + (hexDigit? c).getD 0) 0

/-- An integer, if it has a sign and 64 bits. -/
def integerValue? (i : Int) : Option Value :=
  if -0x8000000000000000 ≤ i ∧ i < 0x8000000000000000 then some (.integer (.ofInt i)) else none

/-- An integer in another base than ten. -/
def radixInteger : Reader Value := fun s =>
  match s with
  | '0' :: c :: r =>
    match radixOf? c with
    | none => none
    | some radix =>
      match h : digits (digitsIn radix) r with
      | none => none
      | some (ds, r') =>
        (integerValue? (valueIn radix ds)).map fun v => ⟨v, r', by
          have := digits_length h
          simp; omega⟩
  | _ => none

/-- The digits before the point: a zero alone or a run that begins otherwise. -/
def wholeDigits (s : List Char) : Option (List Char × List Char) :=
  match s with
  | '0' :: r => some (['0'], r)
  | _ => digits Char.isDigit s

def fraction (s : List Char) : Option (List Char × List Char) :=
  match s with
  | '.' :: r => digits Char.isDigit r
  | _ => some ([], s)

def exponent (s : List Char) : Option (Option Int × List Char) :=
  match s with
  | c :: r =>
    if c = 'e' ∨ c = 'E' then
      let (negative, r) := sign r
      match digits Char.isDigit r with
      | none => none
      | some (ds, r) =>
        let magnitude : Int := digitsValue ds
        some (some (if negative then -magnitude else magnitude), r)
    else some (none, s)
  | [] => some (none, s)

theorem wholeDigits_length {s ds r : List Char} (h : wholeDigits s = some (ds, r)) :
    r.length < s.length := by
  unfold wholeDigits at h
  split at h
  · simp_all
  · exact digits_length h

theorem fraction_length {s ds r : List Char} (h : fraction s = some (ds, r)) :
    r.length ≤ s.length := by
  unfold fraction at h
  split at h
  · have := digits_length h
    simp; omega
  · simp_all

theorem exponent_length {s r : List Char} {e : Option Int} (h : exponent s = some (e, r)) :
    r.length ≤ s.length := by
  unfold exponent at h
  split at h
  · rename_i c t
    split at h
    · have h1 := sign_length t
      simp only at h
      split at h
      · simp at h
      · rename_i heq
        have := digits_length heq
        simp only [Option.some.injEq, Prod.mk.injEq] at h
        obtain ⟨-, rfl⟩ := h
        simp; omega
    · simp_all
  · simp_all

/-- A floating point number, except one that is too great. -/
def floatValue? : Binary64 → Option Value
  | .infinite false => none
  | x => some (.float x)

theorem length_lt_of_decimal {s r r' r'' whole digits : List Char} {e : Option Int}
    (hw : wholeDigits s = some (whole, r)) (hf : fraction r = some (digits, r'))
    (he : exponent r' = some (e, r'')) : r''.length < s.length := by
  have h1 := wholeDigits_length hw
  have h2 := fraction_length hf
  have h3 := exponent_length he
  omega

/-- A number in base ten, read after its sign. -/
def decimalNumber (negative : Bool) : Reader Value := fun s =>
  match hw : wholeDigits s with
  | none => none
  | some (whole, r) =>
    match hf : fraction r with
    | none => none
    | some (fraction, r') =>
      match he : exponent r' with
      | none => none
      | some (exponent, r'') =>
        let numeral : Numeral := ⟨negative, whole, fraction, exponent.getD 0⟩
        let value? :=
          if fraction.isEmpty ∧ exponent.isNone then integerValue? numeral.toInt
          else floatValue? numeral.toBinary64
        value?.map fun v => ⟨v, r'', length_lt_of_decimal hw hf he⟩

/-- A number in base ten or one of the words for what is no number. -/
def signedNumber (negative : Bool) : Reader Value := fun s =>
  match s with
  | [] => none
  | c :: r =>
    if c = 'i' then word 'i' ['n', 'f'] (.float (.infinite negative)) (c :: r)
    else if c = 'n' then word 'n' ['a', 'n'] (.float .nan) (c :: r)
    else decimalNumber negative (c :: r)

def number : Reader Value := fun s =>
  match radixInteger s with
  | some read => some read
  | none => (signedNumber (sign s).1 (sign s).2).map (Read.widen · (sign_length s))

/-- A number of exactly `count` digits that is at most `greatest`, as its digits. -/
def field (count greatest : Nat) (s : List Char) : Option (List Char × List Char) :=
  let ds := s.take count
  if ds.length = count ∧ ds.all Char.isDigit ∧ digitsValue ds ≤ greatest then
    some (ds, s.drop count)
  else none

/-- What follows the given mark. -/
def mark (c : Char) (s : List Char) : Option (List Char) :=
  match s with
  | d :: r => if d = c then some r else none
  | [] => none

def daysIn (year month : Nat) : Nat :=
  if month = 2 then
    if year % 4 = 0 ∧ (year % 100 ≠ 0 ∨ year % 400 = 0) then 29 else 28
  else if month = 4 ∨ month = 6 ∨ month = 9 ∨ month = 11 then 30
  else 31

/-- A day of the calendar. -/
def date (s : List Char) : Option (List Char × List Char) := do
  let (year, s) ← field 4 9999 s
  let s ← mark '-' s
  let (month, s) ← field 2 12 s
  let s ← mark '-' s
  let (day, s) ← field 2 (daysIn (digitsValue year) (digitsValue month)) s
  if digitsValue month = 0 ∨ digitsValue day = 0 then none
  else some (year ++ '-' :: month ++ '-' :: day, s)

/-- A part of a second, to nine places and without zeros at the end. -/
def secondFraction (s : List Char) : List Char × List Char :=
  match s with
  | '.' :: r =>
    match spanDigits r with
    | ([], _) => ([], s)
    | (ds, r) =>
      match ((ds.take 9).reverse.dropWhile (· == '0')).reverse with
      | [] => ([], r)
      | places => ('.' :: places, r)
  | _ => ([], s)

/-- A time of day. -/
def time (s : List Char) : Option (List Char × List Char) := do
  let (hour, s) ← field 2 23 s
  let s ← mark ':' s
  let (minute, s) ← field 2 59 s
  let s ← mark ':' s
  let (second, s) ← field 2 60 s
  let (places, s) := secondFraction s
  some (hour ++ ':' :: minute ++ ':' :: second ++ places, s)

/-- The distance from universal time, if one is given. -/
def offset (s : List Char) : Option (List Char × List Char) :=
  match s with
  | [] => some ([], [])
  | c :: r =>
    if c = 'Z' ∨ c = 'z' then some (['Z'], r)
    else if c = '+' ∨ c = '-' then do
      let (hour, r) ← field 2 23 r
      let r ← mark ':' r
      let (minute, r) ← field 2 59 r
      let west := c = '-' ∧ (digitsValue hour ≠ 0 ∨ digitsValue minute ≠ 0)
      some ((if west then '-' else '+') :: hour ++ ':' :: minute, r)
    else some ([], s)

/-- The time after a date, if one is given. -/
def timeAfterDate (s : List Char) : Option (List Char × List Char) :=
  match s with
  | [] => some ([], [])
  | c :: r =>
    if c = 'T' ∨ c = 't' ∨ c = ' ' then
      match time r with
      | none => some ([], s)
      | some (clock, r) =>
        (offset r).map fun (zone, r) => ('T' :: clock ++ zone, r)
    else some ([], s)

/-- A date, a time or both. -/
def dateTimeText (s : List Char) : Option (List Char × List Char) :=
  match date s with
  | some (day, r) => (timeAfterDate r).map fun (clock, r) => (day ++ clock, r)
  | none => time s

def dateTime : Reader String := fun s =>
  match dateTimeText s with
  | none => none
  | some (text, r) =>
    if h : r.length < s.length then some ⟨String.ofList text, r, h⟩ else none

end ModelBinding.Toml
