import ModelBinding.Types.Definition

/-!
# Type tables

The types of a model in order of declaration. No two of them have the same identity: there are no
other tables, and `TypeTable.make` refuses what would not be one. The position of a type is its
number; it is looked up by name or by identity.
-/
namespace ModelBinding

/-! ## Identities -/

/-- The identity of a name declared at a location. -/
def qualify (classIdentifier name : String) : Location → String
  | .root => name
  | .modelClass => classIdentifier ++ "::" ++ name

def TypeTable.identityOf (classIdentifier : String) (type : TypeDefinition) : String :=
  qualify classIdentifier type.name type.location

/-- The first of a list that occurs before. -/
def firstRepeated? : (seen rest : List String) → Option String
  | _, [] => none
  | seen, name :: rest =>
    if seen.contains name then some name else firstRepeated? (name :: seen) rest

section Repetitions

variable {seen rest : List String} {identity : String}

theorem firstRepeated?_cons_of_mem (h : identity ∈ seen) :
    firstRepeated? seen (identity :: rest) = some identity :=
  if_pos (List.contains_iff_mem.2 h)

theorem firstRepeated?_cons_of_notMem (h : identity ∉ seen) :
    firstRepeated? seen (identity :: rest) = firstRepeated? (identity :: seen) rest :=
  if_neg (mt List.contains_iff_mem.1 h)

theorem firstRepeated?_eq_none :
    firstRepeated? seen rest = none ↔ rest.Nodup ∧ ∀ name ∈ rest, name ∉ seen := by
  induction rest generalizing seen with
  | nil => simp [firstRepeated?]
  | cons name rest ih =>
    by_cases hseen : name ∈ seen
    · rw [firstRepeated?_cons_of_mem hseen]
      exact iff_of_false (fun h => nomatch h) fun h => h.2 name List.mem_cons_self hseen
    · rw [firstRepeated?_cons_of_notMem hseen, ih, List.nodup_cons, List.forall_mem_cons]
      constructor
      · rintro ⟨hnodup, hrest⟩
        refine ⟨⟨fun hmem => hrest name hmem List.mem_cons_self, hnodup⟩, hseen, ?_⟩
        exact fun other hother hmem => hrest other hother (List.mem_cons_of_mem name hmem)
      · rintro ⟨⟨hnotMem, hnodup⟩, -, hrest⟩
        refine ⟨hnodup, fun other hother hmem => ?_⟩
        rcases List.mem_cons.1 hmem with rfl | hmem
        · exact hnotMem hother
        · exact hrest other hother hmem

/-- Nothing is repeated in a list without repetitions. -/
theorem firstRepeated?_nil_eq_none : firstRepeated? [] rest = none ↔ rest.Nodup := by
  rw [firstRepeated?_eq_none]
  exact and_iff_left fun _ _ => List.not_mem_nil

end Repetitions

/-! ## Tables -/

structure TypeTable where
  /-- The identifier of the model class, which encloses the types declared in it. -/
  classIdentifier : String
  definitions : List TypeDefinition
  distinct : (definitions.map (TypeTable.identityOf classIdentifier)).Nodup
deriving DecidableEq

/-- A type with its number in the table. -/
structure PlacedType where
  id : Nat
  definition : TypeDefinition
deriving DecidableEq

namespace PlacedType

def name (type : PlacedType) : String := type.definition.name

def aliasName (type : PlacedType) : String := "SlxpyPodType_" ++ toString type.id

def bindingName (type : PlacedType) : String := type.name

def bindingIdentifier (type : PlacedType) : String := type.bindingName ++ "_PB"

def toValue (type : PlacedType) : Value := .ofEntries [
  ("name", .text type.name),
  ("doc", .text type.definition.doc),
  ("location", .text type.definition.location.name),
  ("is_enum", .boolean type.definition.isEnum),
  ("fields", type.definition.members.toValue),
  ("_id", .ofUInt64 (.ofNat type.id)),
  ("_alias_name", .text type.aliasName),
  ("_binding_name", .text type.bindingName),
  ("_binding_identifier", .text type.bindingIdentifier)]

end PlacedType

namespace TypeTable

/-- Some types in a table, unless two of them have one identity. -/
def make (definitions : List TypeDefinition) (classIdentifier : String) :
    Except Error TypeTable :=
  match hrepeated : firstRepeated? [] (definitions.map (identityOf classIdentifier)) with
  | some identity => .error (.duplicateType identity)
  | none => .ok ⟨classIdentifier, definitions, firstRepeated?_nil_eq_none.1 hrepeated⟩

def length (table : TypeTable) : Nat := table.definitions.length

def types (table : TypeTable) : List PlacedType :=
  table.definitions.zipIdx.map fun (definition, id) => ⟨id, definition⟩

def get? (table : TypeTable) (id : Nat) : Option PlacedType :=
  table.definitions[id]?.map fun definition => ⟨id, definition⟩

def identity (table : TypeTable) (type : TypeDefinition) : String :=
  identityOf table.classIdentifier type

/-- The first type of that name. -/
def lookup (table : TypeTable) (name : String) : Except Error PlacedType :=
  match table.types.find? (·.name = name) with
  | some type => .ok type
  | none => .error (.typeNotFound name)

/-- The number of the type with that identity. -/
def idOf? (table : TypeTable) (identity : String) : Option Nat :=
  table.definitions.findIdx? fun type => table.identity type = identity

def getQualified? (table : TypeTable) (identity : String) : Option PlacedType :=
  (table.idOf? identity).bind table.get?

/-- The number of the type that a name refers to: an identity, else a type of the model class. -/
def resolve? (table : TypeTable) (name : String) : Option Nat :=
  (table.idOf? name).or (table.idOf? (qualify table.classIdentifier name .modelClass))

def inRoot (table : TypeTable) : List PlacedType :=
  table.types.filter (·.definition.location = .root)

def inModelClass (table : TypeTable) : List PlacedType :=
  table.types.filter (·.definition.location = .modelClass)

def structs (table : TypeTable) : List PlacedType :=
  table.types.filter (!·.definition.isEnum)

def enums (table : TypeTable) : List PlacedType :=
  table.types.filter (·.definition.isEnum)

def toValue (table : TypeTable) : Value := .sequence (table.types.map PlacedType.toValue)

end TypeTable

end ModelBinding
