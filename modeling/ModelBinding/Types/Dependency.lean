import ModelBinding.Graph.TopologicalOrder
import ModelBinding.Types.Table

/-!
# Dependencies between types

A type depends on the types that it holds by value. Members that are plain, enums or pointers
need no order, and neither does a struct whose type is `void`.
-/
namespace ModelBinding

namespace AdjacencyMatrix

/-- The graph of some edges. -/
def ofEdges (size : Nat) (edges : List (Nat × Nat)) : AdjacencyMatrix :=
  edges.foldl (fun m (row, col) => (m.connect? row col).getD m) (.empty size)

end AdjacencyMatrix

namespace Field

/-- The name of the type that a field holds by value. -/
def heldType? (field : Field) : Option String :=
  if field.mode.isStruct then field.typeName.filter (· ≠ "void") else none

end Field

namespace TypeTable

/-- The number of the type that a field of `owner` holds by value, if it holds one. -/
def heldBy (table : TypeTable) (owner : PlacedType) (field : Field) :
    Except Error (Option Nat) :=
  match field.heldType? with
  | none => .ok none
  | some target =>
    match table.resolve? target with
    | some id => .ok (some id)
    | none => .error (.unresolvedReference owner.name field.name target)

/-- An edge from each type held by value to the type that holds it. -/
def dependencies (table : TypeTable) : Except Error (List (Nat × Nat)) := do
  let edges ← table.types.mapM fun owner => do
    let held ← owner.definition.fields.mapM (table.heldBy owner)
    return (held.filterMap id).map fun target => (target, owner.id)
  return edges.flatten

/-- The types, each after those that it holds by value. -/
def dependencyOrder (table : TypeTable) : Except Error (List PlacedType) := do
  let edges ← table.dependencies
  match (AdjacencyMatrix.ofEdges table.length edges).topologicalOrder with
  | .ok order => return order.filterMap table.get?
  | .error (.cycle members) =>
    throw (.circularTypes ((members.filterMap table.get?).map (table.identity ·.definition)))
  | .error other => throw (.sort other)

/-- Nested structs are not kept as such, so an order of the hierarchy does not exist. -/
def hierarchyOrder (_ : TypeTable) : Except Error (List PlacedType) :=
  .error .hierarchyOrder

end TypeTable

end ModelBinding
