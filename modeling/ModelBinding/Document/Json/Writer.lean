import ModelBinding.Document.Value
import ModelBinding.Number.Layout

/-!
# Writing JSON

Two layouts of the same value: compact, and with an entry a line and four spaces a level. A
number that is not finite has no JSON form and is written as null.
-/
namespace ModelBinding.Json

/-- Positional from 0.00001 up to sixteen digits before the point, an exponent with its sign. -/
def numbers : NumberLayout where
  isPositional e := decide (-5 ≤ e ∧ e ≤ 15)
  pointZero := true
  plusSign := true
  tie := .toEven
  nan := "null"

def hexDigit (n : Nat) : Char := (Nat.digitChar (n % 16))

def escapeChar (c : Char) : List Char :=
  match c with
  | '"' => ['\\', '"']
  | '\\' => ['\\', '\\']
  | '\x08' => ['\\', 'b']
  | '\x0c' => ['\\', 'f']
  | '\n' => ['\\', 'n']
  | '\r' => ['\\', 'r']
  | '\t' => ['\\', 't']
  | _ =>
    if c.toNat < 0x20 then ['\\', 'u', '0', '0', hexDigit (c.toNat / 16), hexDigit c.toNat] else [c]

def quoted (s : String) : List Char :=
  '"' :: s.toList.flatMap escapeChar ++ ['"']

/-- The text of a number, null when it is not finite. -/
def floatText : Binary64 → List Char
  | .infinite _ => "null".toList
  | x => (x.text numbers).toList

mutual

/-- The text of a value without blanks. -/
def compact : Value → List Char
  | .null => "null".toList
  | .boolean b => (if b then "true" else "false").toList
  | .integer i => (toString i.toInt).toList
  | .unsigned n => (toString n.toNat).toList
  | .float x => floatText x
  | .text s => quoted s
  | .sequence items => '[' :: compactItems items ++ [']']
  | .table entries => '\x7b' :: compactEntries entries ++ ['\x7d']

def compactItems : List Value → List Char
  | [] => []
  | [v] => compact v
  | v :: w :: rest => compact v ++ ',' :: compactItems (w :: rest)

def compactEntries : List (String × Value) → List Char
  | [] => []
  | [(k, v)] => quoted k ++ ':' :: compact v
  | (k, v) :: e :: rest => quoted k ++ ':' :: compact v ++ ',' :: compactEntries (e :: rest)

end

/-- A new line at a level of nesting. -/
def lineAt (level : Nat) : List Char := '\n' :: List.replicate (4 * level) ' '

mutual

/-- The text of a value that starts at a level of nesting. -/
def spread (level : Nat) : Value → List Char
  | .sequence [] => ['[', ']']
  | .sequence (v :: rest) =>
    '[' :: spreadItems (level + 1) (v :: rest) ++ lineAt level ++ [']']
  | .table [] => ['\x7b', '\x7d']
  | .table (e :: rest) =>
    '\x7b' :: spreadEntries (level + 1) (e :: rest) ++ lineAt level ++ ['\x7d']
  | .null => "null".toList
  | .boolean b => (if b then "true" else "false").toList
  | .integer i => (toString i.toInt).toList
  | .unsigned n => (toString n.toNat).toList
  | .float x => floatText x
  | .text s => quoted s

def spreadItems (level : Nat) : List Value → List Char
  | [] => []
  | [v] => lineAt level ++ spread level v
  | v :: w :: rest => lineAt level ++ spread level v ++ ',' :: spreadItems level (w :: rest)

def spreadEntries (level : Nat) : List (String × Value) → List Char
  | [] => []
  | [(k, v)] => lineAt level ++ quoted k ++ ':' :: ' ' :: spread level v
  | (k, v) :: e :: rest =>
    lineAt level ++ quoted k ++ ':' :: ' ' :: spread level v ++ ',' :: spreadEntries level (e :: rest)

end

def compactText (v : Value) : String := String.ofList (compact v)

def spreadText (v : Value) : String := String.ofList (spread 0 v)

end ModelBinding.Json
