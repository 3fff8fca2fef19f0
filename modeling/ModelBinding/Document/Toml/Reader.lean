import ModelBinding.Document.Toml.Scalar

/-!
# Reading TOML

Version 1.0 of the format. A document is read line by line into headers and pairs; the pairs
after a header fill its table. Arrays and inline tables nest less than 80 deep, and a key has
less than 80 parts.
-/
namespace ModelBinding.Toml

/-- Blanks, line breaks and comments. -/
def skipSpace (inComment : Bool) : List Char → List Char
  | [] => []
  | c :: r =>
    if c = '\n' ∨ (c = '\r' ∧ r.head? = some '\n') then skipSpace false r
    else if inComment then (if isPrintable c ∨ c.toNat = 0x7f then skipSpace true r else c :: r)
    else if isBlank c then skipSpace false r
    else if c = '#' then skipSpace true r
    else c :: r

theorem skipSpace_length (inComment : Bool) (s : List Char) :
    (skipSpace inComment s).length ≤ s.length := by
  fun_induction skipSpace inComment s <;> simp_all <;> omega

def maxDepth : Nat := 79

/-- A key, an equals sign and a value. -/
def pair (value : Reader Node) : Reader (List String × Node) := fun s =>
  match key s with
  | none => none
  | some ⟨path, r, hr⟩ =>
    match h : skipBlank r with
    | '=' :: r' =>
      if path.length ≤ maxDepth then
        (value (skipBlank r')).map fun read => (read.map (path, ·)).widen (by
          have h1 := skipBlank_length r
          have h2 := skipBlank_length r'
          rw [h] at h1
          simp at h1; omega)
      else none
    | _ => none

theorem length_lt_of_skipSpace {inComment : Bool} {s r : List Char} {c : Char}
    (h : skipSpace inComment s = c :: r) : r.length < s.length := by
  have := skipSpace_length inComment s
  rw [h] at this
  exact this

theorem length_lt_of_item {s t r r' : List Char} {c d : Char} (hs : skipSpace false s = c :: t)
    (hr : r.length < (c :: t).length) (h : skipSpace false r = d :: r') : r'.length < s.length := by
  have h1 := length_lt_of_skipSpace hs
  have h2 := length_lt_of_skipSpace h
  simp only [List.length_cons] at hr
  omega

/-- Items with commas between and after them, over several lines, up to the closing bracket. -/
def arrayItems (item : Reader Node) (s : List Char) : Option (Read (List Node) s) :=
  match hs : skipSpace false s with
  | [] => none
  | c :: t =>
    if c = ']' then some ⟨[], t, length_lt_of_skipSpace hs⟩
    else
      match item (c :: t) with
      | none => none
      | some ⟨a, r, hr⟩ =>
        match h : skipSpace false r with
        | [] => none
        | d :: r' =>
          have hlen := length_lt_of_item hs hr h
          if d = ',' then (arrayItems item r').map fun read => (read.map (a :: ·)).later hlen
          else if d = ']' then some ⟨[a], r', hlen⟩
          else none
termination_by s.length

/-- Pairs with commas between them on one line, up to the closing brace. -/
def inlinePairs (item : Reader (List String × Node)) (s : List Char) :
    Option (Read (List (List String × Node)) s) :=
  match item (skipBlank s) with
  | none => none
  | some ⟨a, r, hr⟩ =>
    match h : skipBlank r with
    | [] => none
    | d :: r' =>
      have hlen : r'.length < s.length := by
        have h1 := skipBlank_length r
        have h2 := skipBlank_length s
        rw [h] at h1
        simp at h1; omega
      if d = ',' then
        (inlinePairs item r').map fun read => (read.map (a :: ·)).widen (Nat.le_of_lt hlen)
      else if d = '\x7d' then some ⟨[a], r', hlen⟩
      else none
termination_by s.length

/-- An inline table, read after its opening brace. -/
def inlineTable (item : Reader (List String × Node)) : Reader (List (List String × Node)) :=
  fun s =>
    match h : skipBlank s with
    | [] => none
    | c :: r =>
      if c = '\x7d' then some ⟨[], r, length_lt_of_skipBlank h⟩
      else inlinePairs item s

/-- The table of some pairs, if they go together. -/
def inlineNode? (pairs : List (List String × Node)) : Option Node :=
  (insertPairs pairs []).map fun entries => .value (.ofEntries (entryValues entries))

/-- A value whose arrays and inline tables nest at most `depth` deep. -/
def value (depth : Nat) : Reader Node := fun s =>
  match s with
  | [] => none
  | c :: r =>
    if c = '"' ∨ c = '\'' then (string (c :: r)).map (Read.map fun text => .value (.text text))
    else if c = 't' then
      word 't' ['r', 'u', 'e'] (.value (.boolean true)) (c :: r)
    else if c = 'f' then
      word 'f' ['a', 'l', 's', 'e'] (.value (.boolean false)) (c :: r)
    else if c = '[' then
      match depth with
      | 0 => none
      | depth + 1 =>
        (arrayItems (value depth) r).map fun read =>
          (read.map fun items => Node.value (.sequence (items.map Node.toValue))).behind
    else if c = '\x7b' then
      match depth with
      | 0 => none
      | depth + 1 =>
        (inlineTable (pair (value depth)) r).bind fun read =>
          (inlineNode? read.value).map fun node => (read.map fun _ => node).behind
    else
      match dateTime (c :: r) with
      | some read => some (read.map .dateTime)
      | none => (number (c :: r)).map (Read.map .value)

/-- What follows the end of a line, a comment before it included. -/
def lineEnd (s : List Char) : Option (List Char) :=
  match skipBlank s with
  | [] => some []
  | '#' :: r =>
    let r := r.dropWhile fun c => isPrintable c || c.toNat == 0x7f
    if r.isEmpty then some [] else newline? r
  | r => newline? r

theorem lineEnd_length {s r : List Char} (h : lineEnd s = some r) : r.length ≤ s.length := by
  have hb := skipBlank_length s
  unfold lineEnd at h
  split at h
  · simp_all
  · rename_i t heq
    have ht := length_dropWhile_le (fun c => isPrintable c || c.toNat == 0x7f) t
    rw [heq] at hb
    simp only at h
    split at h
    · simp_all
    · have := newline?_length h
      simp at hb; omega
  · have := newline?_length h
    omega

inductive Line where
  | pair (path : List String) (node : Node)
  | table (path : List String)
  | arrayTable (path : List String)

/-- A header in brackets, of a table or of an element of an array. -/
def header (isArray : Bool) : Reader (List String) := fun s =>
  match s with
  | [] => none
  | _ :: r =>
    let opened := if isArray then r.drop 1 else r
    have hopened : opened.length ≤ r.length := by
      simp only [opened]
      split <;> simp
    match key (skipBlank opened) with
    | none => none
    | some ⟨path, r', hr'⟩ =>
      match h : after? (if isArray then [']', ']'] else [']']) (skipBlank r') with
      | none => none
      | some r'' =>
        if path.length ≤ maxDepth then
          some ⟨path, r'', by
            have h1 := skipBlank_length opened
            have h2 := skipBlank_length r'
            have h3 := after?_length h
            simp; omega⟩
        else none

/-- A line that says something, read without its end. -/
def line : Reader Line := fun s =>
  match s with
  | '[' :: r =>
    if r.head? = some '[' then (header true ('[' :: r)).map (Read.map .arrayTable)
    else (header false ('[' :: r)).map (Read.map .table)
  | s => (pair (value maxDepth) s).map (Read.map fun (path, node) => .pair path node)

/-- All lines of a text. -/
def lines (s : List Char) : Option (List Line) :=
  match hs : skipSpace false s with
  | [] => some []
  | c :: t =>
    match line (c :: t) with
    | none => none
    | some ⟨a, r, hr⟩ =>
      match h : lineEnd r with
      | none => none
      | some r' =>
        have : r'.length < s.length := by
          have h1 := skipSpace_length false s
          have h2 := lineEnd_length h
          rw [hs] at h1
          omega
        (lines r').map (a :: ·)
termination_by s.length

/-- The pairs before the next header, and the lines from there on. -/
def leadingPairs : List Line → List (List String × Node) × List Line
  | .pair path node :: rest =>
    let (pairs, rest) := leadingPairs rest
    ((path, node) :: pairs, rest)
  | rest => ([], rest)

theorem leadingPairs_length (ls : List Line) : (leadingPairs ls).2.length ≤ ls.length := by
  fun_induction leadingPairs ls with
  | case1 path node tail pairs rest h ih =>
    rw [h] at ih
    exact Nat.le_succ_of_le ih
  | case2 => exact Nat.le_refl _

/-- Fill the tables of all headers in order. -/
def insertSections (ls : List Line) (entries : Entries) : Option Entries :=
  match ls with
  | [] => some entries
  | .pair path node :: rest => (insertPair path node entries).bind (insertSections rest)
  | .table path :: rest =>
    have := leadingPairs_length rest
    (insertTable path (leadingPairs rest).1 entries).bind (insertSections (leadingPairs rest).2)
  | .arrayTable path :: rest =>
    have := leadingPairs_length rest
    (appendTable path (leadingPairs rest).1 entries).bind (insertSections (leadingPairs rest).2)
termination_by ls.length
decreasing_by all_goals simp_all; try omega

/-- The text without a byte order mark at its beginning. -/
def dropMark : List Char → List Char
  | '\ufeff' :: s => s
  | s => s

/-- The tables that a whole text describes. -/
def parse? (text : String) : Option Entries :=
  (lines (dropMark text.toList)).bind (insertSections · [])

/-- The text of a key at the top, if that is a string. -/
def topText? (key : String) (entries : Entries) : Option String :=
  match entries.lookup key with
  | some (.value v) => v.asText?
  | _ => none

end ModelBinding.Toml
