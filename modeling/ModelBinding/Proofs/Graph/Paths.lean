import Mathlib.Logic.Relation
import Mathlib.Order.WellFounded
import Mathlib.Data.Fintype.EquivFin
import ModelBinding.Graph.TopologicalOrder

/-!
# Paths in a graph

Edges between vertices and the paths that they make up. The closure of a graph has an edge wherever
a path leads, and a part of a graph into which each vertex is led from within holds a cycle.
-/
namespace ModelBinding.AdjacencyMatrix

open Relation

variable {m : AdjacencyMatrix} {u v w : Nat}

/-- An edge from a vertex to a vertex. -/
def Edge (m : AdjacencyMatrix) (v w : Nat) : Prop := v < m.size ∧ w < m.size ∧ m.hasEdge v w = true

/-- A path of at least one edge. -/
def Path (m : AdjacencyMatrix) : Nat → Nat → Prop := TransGen m.Edge

/-- No vertex is led back to, not even by an edge to itself. -/
def Acyclic (m : AdjacencyMatrix) : Prop := ∀ v, ¬ m.Path v v

theorem mem_vertices : v ∈ m.vertices ↔ v < m.size := List.mem_range

theorem nodup_vertices (m : AdjacencyMatrix) : m.vertices.Nodup := List.nodup_range

theorem mem_successors (hv : v < m.size) : w ∈ m.successors v ↔ m.Edge v w := by
  rw [successors, List.mem_filter, mem_vertices, Edge, and_iff_right hv]

theorem mem_predecessors (hw : w < m.size) : v ∈ m.predecessors w ↔ m.Edge v w := by
  rw [predecessors, List.mem_filter, mem_vertices, Edge, and_iff_right hw]

theorem nodup_successors (m : AdjacencyMatrix) (v : Nat) : (m.successors v).Nodup :=
  m.nodup_vertices.filter _

theorem nodup_predecessors (m : AdjacencyMatrix) (v : Nat) : (m.predecessors v).Nodup :=
  m.nodup_vertices.filter _

/-! ## Closure -/

@[simp] theorem size_through (m : AdjacencyMatrix) (k : Nat) : (m.through k).size = m.size := rfl

theorem edge_through {k : Nat} (hk : k < m.size) :
    (m.through k).Edge v w ↔ m.Edge v w ∨ (m.Edge v k ∧ m.Edge k w) := by
  unfold Edge
  rw [size_through]
  by_cases hv : v < m.size
  · by_cases hw : w < m.size
    · rw [through, hasEdge_tabulate _ hv hw]
      simp [hv, hw, hk]
    · simp [hw]
  · simp [hv]

@[simp] theorem size_foldl_through (m : AdjacencyMatrix) (ks : List Nat) :
    (ks.foldl through m).size = m.size := by
  induction ks generalizing m with
  | nil => rfl
  | cons k ks ih => rw [List.foldl_cons, ih, size_through]

/-- What leads by way of some vertices leads somewhere without them. -/
theorem path_of_edge_foldl_through {ks : List Nat} (hks : ∀ k ∈ ks, k < m.size)
    (h : (ks.foldl through m).Edge v w) : m.Path v w := by
  have hpath : ∀ n : AdjacencyMatrix, n.size = m.size → (∀ v w, n.Edge v w → m.Path v w) →
      (ks.foldl through n).Edge v w → m.Path v w := by
    clear h
    induction ks with
    | nil => exact fun n _ hn h => hn v w h
    | cons k ks ih =>
      intro n hsize hn h
      obtain ⟨hk, hks⟩ := List.forall_mem_cons.1 hks
      refine ih hks (n.through k) hsize (fun v w hedge => ?_) h
      rcases (edge_through (hsize ▸ hk)).1 hedge with hedge | ⟨hleft, hright⟩
      · exact hn v w hedge
      · exact (hn v k hleft).trans (hn k w hright)
  exact hpath m rfl (fun v w hedge => .single hedge) h

theorem edge_foldl_through_of_edge (ks : List Nat) (hks : ∀ k ∈ ks, k < m.size) (h : m.Edge v w) :
    (ks.foldl through m).Edge v w := by
  induction ks generalizing m with
  | nil => exact h
  | cons k ks ih =>
    obtain ⟨hk, hks⟩ := List.forall_mem_cons.1 hks
    exact ih hks ((edge_through hk).2 (.inl h))

/-- A graph in which what leads by way of `k` is an edge. -/
def ClosedAt (m : AdjacencyMatrix) (k : Nat) : Prop := ∀ v w, m.Edge v k → m.Edge k w → m.Edge v w

theorem closedAt_through_self {k : Nat} (hk : k < m.size) : (m.through k).ClosedAt k := by
  intro v w hleft hright
  have hv : m.Edge v k := ((edge_through hk).1 hleft).elim id And.left
  have hw : m.Edge k w := ((edge_through hk).1 hright).elim id And.right
  exact (edge_through hk).2 (.inr ⟨hv, hw⟩)

/-- Going by way of one more vertex keeps a graph closed at another. -/
theorem ClosedAt.through {j k : Nat} (h : m.ClosedAt j) (hk : k < m.size) :
    (m.through k).ClosedAt j := by
  intro v w hleft hright
  refine (edge_through hk).2 ?_
  rcases (edge_through hk).1 hleft with hvj | ⟨hvk, hkj⟩
  · rcases (edge_through hk).1 hright with hjw | ⟨hjk, hkw⟩
    · exact .inl (h v w hvj hjw)
    · exact .inr ⟨h v k hvj hjk, hkw⟩
  · rcases (edge_through hk).1 hright with hjw | ⟨-, hkw⟩
    · exact .inr ⟨hvk, h k w hkj hjw⟩
    · exact .inr ⟨hvk, hkw⟩

theorem closedAt_foldl_through {j : Nat} (ks : List Nat) (hks : ∀ k ∈ ks, k < m.size)
    (h : m.ClosedAt j ∨ j ∈ ks) : (ks.foldl AdjacencyMatrix.through m).ClosedAt j := by
  induction ks generalizing m with
  | nil => exact h.resolve_right List.not_mem_nil
  | cons k ks ih =>
    obtain ⟨hk, hks⟩ := List.forall_mem_cons.1 hks
    refine ih hks ?_
    rcases h with hclosed | hmem
    · exact .inl (hclosed.through hk)
    · rcases List.mem_cons.1 hmem with rfl | hmem
      · exact .inl (closedAt_through_self hk)
      · exact .inr hmem

/-- The closure has an edge exactly where a path leads. -/
theorem edge_closure : m.closure.Edge v w ↔ m.Path v w := by
  have hvertices : ∀ k ∈ m.vertices, k < m.size := fun k => mem_vertices.1
  constructor
  · exact path_of_edge_foldl_through hvertices
  · intro h
    induction h with
    | single hedge => exact edge_foldl_through_of_edge _ hvertices hedge
    | tail hpath hedge ih =>
      have hclosed : m.closure.ClosedAt _ := closedAt_foldl_through m.vertices hvertices
        (.inr (mem_vertices.2 hedge.1))
      exact hclosed _ _ ih (edge_foldl_through_of_edge _ hvertices hedge)

/-- The members of cycles are the vertices that a path leads back to, in increasing order. -/
theorem mem_cycleMembers : v ∈ m.cycleMembers ↔ m.Path v v := by
  rw [cycleMembers, List.mem_filter, mem_vertices, ← edge_closure, Edge, closure, size_foldl_through]
  tauto

/-! ## Cycles -/

/-- Where each vertex is led to from within there is a cycle. -/
theorem exists_cycle {S : Set Nat} (hne : S.Nonempty) (h : ∀ v ∈ S, ∃ u ∈ S, m.Edge u v) :
    ∃ v, m.Path v v := by
  by_contra hacyclic
  have : IsTrans (Fin m.size) fun a b => m.Path a b := ⟨fun _ _ _ => TransGen.trans⟩
  have : Std.Irrefl fun a b : Fin m.size => m.Path a b := ⟨fun a ha => hacyclic ⟨a, ha⟩⟩
  have hwf : WellFounded fun a b : Fin m.size => m.Path a b :=
    Finite.wellFounded_of_trans_of_irrefl _
  obtain ⟨v, hv⟩ := hne
  obtain ⟨_, -, -, hlt, -⟩ := h v hv
  obtain ⟨least, hleast, hmin⟩ := hwf.has_min {a : Fin m.size | (a : Nat) ∈ S} ⟨⟨v, hlt⟩, hv⟩
  obtain ⟨u, hu, hedge⟩ := h least hleast
  exact hmin ⟨u, hedge.1⟩ hu (.single hedge)

end ModelBinding.AdjacencyMatrix
