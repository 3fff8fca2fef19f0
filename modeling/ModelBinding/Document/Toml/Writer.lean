import ModelBinding.Document.Toml.Text
import ModelBinding.Document.Value
import ModelBinding.Number.Layout

/-!
# Writing TOML

Each table writes its plain values, then its tables under headers of their own. A string takes
the first of its forms that needs no escapes, as far as there is one. Null is written as nothing,
and an integer above the signed range cannot be written at all.
-/
namespace ModelBinding.Toml

/-- Positional throughout, with a point. -/
def numbers : NumberLayout where
  isPositional _ := true
  pointZero := true
  plusSign := false
  tie := .upward
  nan := "nan"

/-- A control character other than a tab and a line feed. -/
def isControl (c : Char) : Bool :=
  (c.toNat < 0x20 || c.toNat == 0x7f) && c != '\t' && c != '\n'

/-- Whether some quote stands at least three times in a row. -/
def hasTriple (quote : Char) : List Char → Bool
  | a :: b :: c :: s => (a == quote && b == quote && c == quote) || hasTriple quote (b :: c :: s)
  | _ => false

def hexUpper (n : Nat) : Char := (Nat.digitChar (n % 16)).toUpper

def escapeChar (c : Char) : List Char :=
  match c with
  | '\x08' => ['\\', 'b']
  | '\t' => ['\\', 't']
  | '\n' => ['\\', 'n']
  | '\x0c' => ['\\', 'f']
  | '\r' => ['\\', 'r']
  | '"' => ['\\', '"']
  | '\\' => ['\\', '\\']
  | _ =>
    if c.toNat < 0x20 ∨ c.toNat = 0x7f then
      ['\\', 'u', '0', '0', hexUpper (c.toNat / 16), hexUpper c.toNat]
    else [c]

def basic (s : List Char) : List Char := '"' :: s.flatMap escapeChar ++ ['"']

def literal (s : List Char) : List Char := '\'' :: s ++ ['\'']

/-- The text between triple quotes, in which only a third quote in a row is escaped. -/
def multilineBody (quotes : Nat) : List Char → List Char
  | [] => []
  | c :: s =>
    if c = '"' then
      if quotes = 2 then '\\' :: '"' :: multilineBody 0 s else '"' :: multilineBody (quotes + 1) s
    else if c = '\n' then '\n' :: multilineBody 0 s
    else escapeChar c ++ multilineBody 0 s

/-- What follows an opening triple quote: a line break if the text has one. -/
def opening (s : List Char) : List Char := if s.contains '\n' then ['\n'] else []

def multilineBasic (s : List Char) : List Char :=
  ['"', '"', '"'] ++ opening s ++ multilineBody 0 s ++ ['"', '"', '"']

def multilineLiteral (s : List Char) : List Char :=
  ['\'', '\'', '\''] ++ opening s ++ s ++ ['\'', '\'', '\'']

/-- The first form that holds the text without escapes, else one with them. -/
def quoted (s : List Char) : List Char :=
  let control := s.any isControl
  let lines := s.contains '\n'
  if !control && !s.contains '\\' && !s.contains '"' && !lines then basic s
  else if !control && !s.contains '\'' && !lines then literal s
  else if !control && !s.contains '\\' && !hasTriple '"' s then multilineBasic s
  else if !control && !hasTriple '\'' s then multilineLiteral s
  else if lines then multilineBasic s
  else basic s

/-- A part of a key. -/
def keyPart (name : String) : List Char :=
  let s := name.toList
  let control := s.any fun c => isControl c || c == '\n'
  if !s.isEmpty && s.all isBare then s
  else if !control && !s.contains '\\' && !s.contains '"' then basic s
  else if !control && !s.contains '\'' then literal s
  else basic s

def keyPath (path : List String) : List Char :=
  ['.'].intercalate (path.map keyPart)

mutual

/-- A value that is no table; of the integers only those with 64 bits and a sign. -/
def inline : Value → Option (List Char)
  | .null => none
  | .boolean b => some (if b then "true" else "false").toList
  | .integer i => some (toString i.toInt).toList
  | .unsigned _ => none
  | .float x => some (x.text numbers).toList
  | .text s => some (quoted s.toList)
  | .sequence items => (inlineItems items).map array
  | .table _ => none

def inlineItems : List Value → Option (List (List Char))
  | [] => some []
  | v :: rest => do
    let first ← inline v
    let others ← inlineItems rest
    some (first :: others)

/-- An array, with an item a line if there are several. -/
def array : List (List Char) → List Char
  | [] => ['[', ']']
  | [item] => '[' :: item ++ [']']
  | items => '[' :: '\n' :: items.flatMap (fun item => "    ".toList ++ item ++ [',', '\n']) ++ [']']

end

def isTable : Value → Bool
  | .table _ => true
  | _ => false

def isNull : Value → Bool
  | .null => true
  | _ => false

/-- The lines of the plain values of a table. -/
def plainLines : List (String × Value) → Option (List Char)
  | [] => some []
  | (name, v) :: rest =>
    if isTable v || isNull v then plainLines rest
    else do
      let value ← inline v
      let others ← plainLines rest
      some (keyPart name ++ " = ".toList ++ value ++ '\n' :: others)

/-- Whether a table has a header: not if all it holds is tables. -/
def hasHeader (entries : List (String × Value)) : Bool :=
  let present := entries.filter fun (_, v) => !isNull v
  present.isEmpty || present.any fun (_, v) => !isTable v

mutual

/-- The tables in a table, each with its header and its own tables after it. -/
def tableLines (path : List String) : List (String × Value) → Option (List Char)
  | [] => some []
  | (name, v) :: rest => do
    let first ← tableBlock (path ++ [name]) v
    let others ← tableLines path rest
    some (first ++ others)

/-- A table under its header; any other value is written elsewhere. -/
def tableBlock (path : List String) : Value → Option (List Char)
  | .table entries => do
    let header := if hasHeader entries then '\n' :: '[' :: keyPath path ++ [']', '\n'] else []
    let values ← plainLines entries
    let tables ← tableLines path entries
    some (header ++ values ++ tables)
  | _ => some []

end

/-- The document of a table. -/
def write? : Value → Option String
  | .table entries => do
    let values ← plainLines entries
    let tables ← tableLines [] entries
    some (String.ofList (values ++ tables))
  | _ => none

end ModelBinding.Toml
