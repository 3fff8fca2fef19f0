import ModelBinding.Document.Value

/-!
# TOML tables under construction

While a document is read its tables remember how they came about, because that decides what may
still be added to them: a table with a header only once, one made by dotted keys only by further
dotted keys, an inline table not at all.
-/
namespace ModelBinding.Toml

/-- How a table came about. -/
inductive Origin where
  /-- As the parent of a table with a header. -/
  | implied
  /-- As the parent of a dotted key. -/
  | dotted
  /-- By its own header. -/
  | header
deriving DecidableEq

inductive Node where
  | value (value : Value)
  | dateTime (text : String)
  | table (origin : Origin) (entries : List (String × Node))
  /-- The tables of an array, the one that is still open last. -/
  | tables (closed : List (List (String × Node))) (last : List (String × Node))
deriving Inhabited

abbrev Entries := List (String × Node)

/-- Replace the node of a key. -/
def replaceNode (key : String) (node : Node) (entries : Entries) : Entries :=
  entries.map fun entry => if entry.1 = key then (key, node) else entry

/--
Change the table that a path leads to. Tables that are not there are made, of the origin
`fresh`; through an array the path leads to its last table. Dotted keys do not enter a table
with a header.
-/
def changeAt (fresh : Origin) (change : Origin → Entries → Option Entries) :
    (path : List String) → Origin → Entries → Option Entries
  | [], origin, entries => change origin entries
  | key :: path, _, entries =>
    match entries.lookup key with
    | none =>
      (changeAt fresh change path fresh []).map fun inner =>
        entries ++ [(key, .table fresh inner)]
    | some (.table origin inner) =>
      if fresh = .dotted ∧ origin = .header then none
      else
        (changeAt fresh change path origin inner).map fun inner =>
          replaceNode key (.table origin inner) entries
    | some (.tables closed last) =>
      (changeAt fresh change path .header last).map fun last =>
        replaceNode key (.tables closed last) entries
    | some _ => none

/-- Add a key and its node; a dotted key ends in a table made by dotted keys. -/
def insertPair (path : List String) (node : Node) (entries : Entries) : Option Entries :=
  match path.getLast? with
  | none => none
  | some key =>
    changeAt .dotted (fun origin inner =>
      if (path.length ≠ 1 ∧ origin ≠ .dotted) ∨ (inner.lookup key).isSome then none
      else some (inner ++ [(key, node)])) path.dropLast .header entries

/-- Keys and their nodes in order. -/
def insertPairs : List (List String × Node) → Entries → Option Entries
  | [], entries => some entries
  | (path, node) :: rest, entries => (insertPair path node entries).bind (insertPairs rest)

/-- Open the table of a header and fill it. -/
def insertTable (path : List String) (pairs : List (List String × Node)) (entries : Entries) :
    Option Entries :=
  match path.getLast? with
  | none => none
  | some key =>
    changeAt .implied (fun _ inner =>
      match inner.lookup key with
      | none =>
        (insertPairs pairs []).map fun filled => inner ++ [(key, .table .header filled)]
      | some (.table .implied old) =>
        (insertPairs pairs old).map fun filled => replaceNode key (.table .header filled) inner
      | some _ => none) path.dropLast .header entries

/-- Add a table to an array of tables and fill it. -/
def appendTable (path : List String) (pairs : List (List String × Node)) (entries : Entries) :
    Option Entries :=
  match path.getLast? with
  | none => none
  | some key =>
    changeAt .implied (fun _ inner =>
      match inner.lookup key with
      | none => (insertPairs pairs []).map fun filled => inner ++ [(key, .tables [] filled)]
      | some (.tables closed last) =>
        (insertPairs pairs []).map fun filled =>
          replaceNode key (.tables (closed ++ [last]) filled) inner
      | some _ => none) path.dropLast .header entries

mutual

/-- What a node holds, without how it came about. A date is its text. -/
def Node.toValue : Node → Value
  | .value v => v
  | .dateTime text => .text text
  | .table _ entries => .ofEntries (entryValues entries)
  | .tables closed last => .sequence (tableValues closed ++ [.ofEntries (entryValues last)])

def entryValues : List (String × Node) → List (String × Value)
  | [] => []
  | (key, node) :: rest => (key, node.toValue) :: entryValues rest

def tableValues : List (List (String × Node)) → List Value
  | [] => []
  | entries :: rest => .ofEntries (entryValues entries) :: tableValues rest

end

end ModelBinding.Toml
