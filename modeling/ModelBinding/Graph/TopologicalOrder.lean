import ModelBinding.Graph.Adjacency

/-!
# Topological order

Vertices are emitted one after the other, always the least of those whose predecessors have all
been emitted. What keeps vertices from being emitted is a cycle; the report then names exactly the
vertices on cycles, not those that only depend on one.
-/
namespace ModelBinding

/-- How far the elimination has come. -/
structure Elimination where
  /-- For each vertex, how many of its predecessors have not been emitted. -/
  inDegree : List Nat
  /-- The vertices that can be emitted next, in increasing order. -/
  ready : List Nat
  /-- The vertices emitted so far. -/
  order : List Nat
deriving DecidableEq

namespace Elimination

def insertReady (v : Nat) : List Nat → List Nat
  | [] => [v]
  | w :: rest => if v < w then v :: w :: rest else w :: insertReady v rest

/-- One predecessor of `v` less. -/
def release (state : Elimination) (v : Nat) : Elimination :=
  let degree := state.inDegree.getD v 0 - 1
  { state with
    inDegree := state.inDegree.set v degree
    ready := if degree = 0 then insertReady v state.ready else state.ready }

/-- Emit the first ready vertex; without one nothing changes. -/
def step (m : AdjacencyMatrix) (state : Elimination) : Elimination :=
  match state.ready with
  | [] => state
  | v :: rest =>
    (m.successors v).foldl release { state with ready := rest, order := state.order ++ [v] }

def start (m : AdjacencyMatrix) : Elimination :=
  let inDegree := m.vertices.map fun v => (m.predecessors v).length
  { inDegree := inDegree
    ready := m.vertices.filter fun v => inDegree.getD v 0 = 0
    order := [] }

def run (m : AdjacencyMatrix) : (steps : Nat) → Elimination → Elimination
  | 0, state => state
  | steps + 1, state => run m steps (step m state)

end Elimination

namespace AdjacencyMatrix

/-- The edges of a graph and those that lead from vertex to vertex by way of `k`. -/
def through (m : AdjacencyMatrix) (k : Nat) : AdjacencyMatrix :=
  tabulate m.size fun v w => m.hasEdge v w || (m.hasEdge v k && m.hasEdge k w)

/-- An edge wherever a path of at least one edge leads. -/
def closure (m : AdjacencyMatrix) : AdjacencyMatrix := m.vertices.foldl through m

/-- The vertices that a path leads back to. -/
def cycleMembers (m : AdjacencyMatrix) : List Nat :=
  let paths := m.closure
  m.vertices.filter fun v => paths.hasEdge v v

/-- The vertices in dependency order, the row of an edge before its column. -/
def topologicalOrder (m : AdjacencyMatrix) : Except SortError (List Nat) :=
  let order := (Elimination.run m m.size (.start m)).order
  if order.length = m.size then .ok order else .error (.cycle m.cycleMembers)

end AdjacencyMatrix

end ModelBinding
