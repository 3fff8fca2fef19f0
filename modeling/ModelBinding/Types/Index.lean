import ModelBinding.Types.Table

/-!
# Indices of types

A table that is filled one declaration after the other. Beside the types it keeps their numbers by
identity, and with each type the positions of its members by name, so that nothing is searched for:
whether an identity is taken is seen from the index before the type is entered.
-/
namespace ModelBinding

/-- Where names stand in a list. A later position of a name takes the place of an earlier one. -/
def positions (names : List String) : TextMap Nat := .ofList names.zipIdx

/-- A type with the positions of its members. -/
structure IndexedType where
  type : PlacedType
  members : TextMap Nat
deriving DecidableEq

namespace IndexedType

def assign (definition : TypeDefinition) (id : Nat) : IndexedType :=
  ⟨⟨id, definition⟩, positions definition.members.names⟩

def hasMember (indexed : IndexedType) (name : String) : Bool :=
  (indexed.members.get? name).isSome

def field? (indexed : IndexedType) (name : String) : Option Field :=
  (indexed.members.get? name).bind fun position => indexed.type.definition.fields[position]?

end IndexedType

structure TypeIndex where
  /-- The identifier of the model class, which encloses the types declared in it. -/
  classIdentifier : String
  types : List IndexedType
  /-- The numbers of the types by their identities. -/
  identities : TextMap Nat
deriving DecidableEq

namespace TypeIndex

def empty (classIdentifier : String) : TypeIndex := ⟨classIdentifier, [], .empty⟩

/-- Enter a type under the next number, unless its identity is taken. -/
def declare (index : TypeIndex) (definition : TypeDefinition) : Except Error TypeIndex :=
  let identity := TypeTable.identityOf index.classIdentifier definition
  match index.identities.get? identity with
  | some _ => .error (.duplicateType identity)
  | none => .ok { index with
      types := index.types ++ [.assign definition index.types.length]
      identities := index.identities.insert identity index.types.length }

def ofDefinitions (definitions : List TypeDefinition) (classIdentifier : String) :
    Except Error TypeIndex :=
  definitions.foldlM declare (empty classIdentifier)

def get? (index : TypeIndex) (id : Nat) : Option IndexedType := index.types[id]?

/-- The first type of that name. -/
def lookup (index : TypeIndex) (name : String) : Except Error IndexedType :=
  match index.types.find? (·.type.name = name) with
  | some indexed => .ok indexed
  | none => .error (.typeNotFound name)

def getQualified? (index : TypeIndex) (identity : String) : Option IndexedType :=
  (index.identities.get? identity).bind index.get?

end TypeIndex

end ModelBinding
