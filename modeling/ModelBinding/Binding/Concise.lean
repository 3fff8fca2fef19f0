import ModelBinding.Document.Value

/-!
# Concise documents

What a concise document leaves out: entries that reading derives again, whose keys begin with an
underscore, entries that are null, and empty texts under `doc`. The maps from names that users
choose are exempt, one level deep.
-/
namespace ModelBinding

inductive DumpMode where
  | concise
  | debug
deriving DecidableEq

namespace Value

mutual

/-- The value with null for every number that is not finite. -/
def withoutNonFinite : Value → Value
  | .float (.finite negative rank) => .float (.finite negative rank)
  | .float _ => .null
  | .sequence items => .sequence (itemsWithoutNonFinite items)
  | .table entries => .table (entriesWithoutNonFinite entries)
  | v => v

def itemsWithoutNonFinite : List Value → List Value
  | [] => []
  | v :: rest => withoutNonFinite v :: itemsWithoutNonFinite rest

def entriesWithoutNonFinite : List (String × Value) → List (String × Value)
  | [] => []
  | (key, v) :: rest => (key, withoutNonFinite v) :: entriesWithoutNonFinite rest

end

end Value

/-- The keys of maps whose own keys are names. -/
def plainMapKeys : List String := ["field_mapping", "type_mapping", "parameter"]

/-- Whether an entry of a record says something. -/
def isAuthoritative (key : String) : Value → Bool
  | .null => false
  | .text "" => key.toList.head? != some '_' && key != "doc"
  | _ => key.toList.head? != some '_'

/-- Whether an entry stays; in a plain map all do. -/
def keeps (mode : DumpMode) (plainMap : Bool) (key : String) (v : Value) : Bool :=
  plainMap || mode = .debug || isAuthoritative key v

mutual

/-- A value in the given mode, with ordered keys. -/
def normalize (mode : DumpMode) (plainMap : Bool) : Value → Value
  | .table entries => .ofEntries (normalizeEntries mode plainMap entries)
  | .sequence items => .sequence (normalizeItems mode items)
  | v => v

def normalizeItems (mode : DumpMode) : List Value → List Value
  | [] => []
  | v :: rest => normalize mode false v :: normalizeItems mode rest

def normalizeEntries (mode : DumpMode) (plainMap : Bool) :
    List (String × Value) → List (String × Value)
  | [] => []
  | (key, v) :: rest =>
    if keeps mode plainMap key v then
      (key, normalize mode (!plainMap && plainMapKeys.contains key) v) ::
        normalizeEntries mode plainMap rest
    else normalizeEntries mode plainMap rest

end

end ModelBinding
