import ModelBinding.TextMap
import ModelBinding.Number.Binary64

/-!
# Document values

What a document holds, whatever its notation: the two notations in use share their scalars,
sequences and tables. An integer is signed where it fits and unsigned above that.
-/
namespace ModelBinding

inductive Value where
  | null
  | boolean (value : Bool)
  | integer (value : Int64)
  | unsigned (value : UInt64)
  | float (value : Binary64)
  | text (value : String)
  | sequence (items : List Value)
  | table (entries : List (String × Value))
deriving Inhabited

namespace Value

/-- The table of a list of entries in which a later entry replaces an earlier one. -/
def ofEntries (entries : List (String × Value)) : Value :=
  .table (orderEntries entries)

def ofUInt64 (n : UInt64) : Value :=
  if n.toNat < 0x8000000000000000 then .integer n.toInt64 else .unsigned n

def ofText? : Option String → Value
  | none => .null
  | some s => .text s

def ofTexts (items : List String) : Value :=
  .sequence (items.map .text)

/-- The value of a key in a table. -/
def field? (key : String) : Value → Option Value
  | .table entries => entries.lookup key
  | _ => none

def asText? : Value → Option String
  | .text s => some s
  | _ => none

/-- The table with one more entry; what is not a table stays as it is. -/
def withEntry (v : Value) (key : String) (entry : Value) : Value :=
  match v with
  | .table entries => .table (insertEntry key entry entries)
  | other => other

end Value

end ModelBinding
