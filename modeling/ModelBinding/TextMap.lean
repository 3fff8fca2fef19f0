/-!
# Finite maps from text

Entries in increasing order of their keys, which is the order of the bytes of their UTF-8
encoding. Inserting keeps the order and replaces an entry with the same key, so two maps with
the same entries are equal.
-/
namespace ModelBinding

/-- Entries with strictly increasing keys. -/
def KeyOrdered (entries : List (String × α)) : Prop :=
  entries.Pairwise fun a b => a.1 < b.1

instance (entries : List (String × α)) : Decidable (KeyOrdered entries) :=
  inferInstanceAs (Decidable (List.Pairwise _ _))

/-- Enter a key into ordered entries; the entry that had it is replaced. -/
def insertEntry (key : String) (value : α) : List (String × α) → List (String × α)
  | [] => [(key, value)]
  | entry :: rest =>
    if key < entry.1 then (key, value) :: entry :: rest
    else if key = entry.1 then (key, value) :: rest
    else entry :: insertEntry key value rest

/-- The ordered entries of a list in which a later entry replaces an earlier one. -/
def orderEntries (entries : List (String × α)) : List (String × α) :=
  entries.foldl (fun acc entry => insertEntry entry.1 entry.2 acc) []

theorem mem_insertEntry {key : String} {value : α} {entry : String × α} :
    {entries : List (String × α)} → entry ∈ insertEntry key value entries →
      entry = (key, value) ∨ entry ∈ entries
  | [], h => by simpa [insertEntry] using h
  | head :: rest, h => by
    unfold insertEntry at h
    split at h
    · simpa using h
    · split at h
      · simp only [List.mem_cons] at h ⊢
        exact h.imp id .inr
      · simp only [List.mem_cons] at h ⊢
        rcases h with h | h
        · exact .inr (.inl h)
        · exact (mem_insertEntry h).imp id .inr

theorem keyOrdered_insertEntry (key : String) (value : α) :
    {entries : List (String × α)} → KeyOrdered entries → KeyOrdered (insertEntry key value entries)
  | [], _ => by simp [insertEntry, KeyOrdered]
  | head :: rest, h => by
    obtain ⟨below, ordered⟩ := List.pairwise_cons.1 h
    unfold insertEntry
    split
    · rename_i hlt
      refine List.pairwise_cons.2 ⟨fun entry hmem => ?_, h⟩
      rcases List.mem_cons.1 hmem with rfl | hmem
      · exact hlt
      · exact String.lt_trans hlt (below entry hmem)
    · split
      · rename_i heq
        exact List.pairwise_cons.2 ⟨fun entry hmem => heq ▸ below entry hmem, ordered⟩
      · rename_i hlt hne
        refine List.pairwise_cons.2 ⟨fun entry hmem => ?_, keyOrdered_insertEntry key value ordered⟩
        rcases mem_insertEntry hmem with rfl | hmem
        · grind
        · exact below entry hmem

theorem keyOrdered_foldl_insertEntry (entries : List (String × α)) :
    {start : List (String × α)} → KeyOrdered start →
      KeyOrdered (entries.foldl (fun acc entry => insertEntry entry.1 entry.2 acc) start) := by
  induction entries with
  | nil => exact fun h => h
  | cons entry rest ih => exact fun h => ih (keyOrdered_insertEntry _ _ h)

theorem keyOrdered_orderEntries (entries : List (String × α)) :
    KeyOrdered (orderEntries entries) :=
  keyOrdered_foldl_insertEntry entries List.Pairwise.nil

/-- The distinct texts of a list in increasing order. -/
def sortDistinct (texts : List String) : List String :=
  (orderEntries (texts.map fun text => (text, ()))).map (·.1)

/-- A finite map from text. -/
structure TextMap (α : Type) where
  entries : List (String × α)
  ordered : KeyOrdered entries
deriving DecidableEq

namespace TextMap

def empty : TextMap α := ⟨[], List.Pairwise.nil⟩

instance : Inhabited (TextMap α) := ⟨empty⟩

def ofList (entries : List (String × α)) : TextMap α :=
  ⟨orderEntries entries, keyOrdered_orderEntries entries⟩

def insert (map : TextMap α) (key : String) (value : α) : TextMap α :=
  ⟨insertEntry key value map.entries, keyOrdered_insertEntry key value map.ordered⟩

def erase (map : TextMap α) (key : String) : TextMap α :=
  ⟨map.entries.filter (·.1 != key), map.ordered.sublist List.filter_sublist⟩

def get? (map : TextMap α) (key : String) : Option α :=
  map.entries.lookup key

def keys (map : TextMap α) : List String := map.entries.map (·.1)

def values (map : TextMap α) : List α := map.entries.map (·.2)

def isEmpty (map : TextMap α) : Bool := map.entries.isEmpty

end TextMap

end ModelBinding
