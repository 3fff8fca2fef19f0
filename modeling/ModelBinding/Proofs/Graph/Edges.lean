import ModelBinding.Proofs.Graph.Paths
import ModelBinding.Types.Dependency

/-!
# Entering edges

A graph has the edges that were entered, however often and in whatever order.
-/
namespace ModelBinding.AdjacencyMatrix

variable {m n : AdjacencyMatrix} {u v w row col : Nat}

theorem position_lt (m : AdjacencyMatrix) (hrow : row < m.size) (hcol : col < m.size) :
    m.position row col < m.cells.size := by
  rw [m.cells_size]
  calc m.position row col < row * m.size + m.size := Nat.add_lt_add_left hcol _
    _ = (row + 1) * m.size := (Nat.succ_mul row m.size).symm
    _ ≤ m.size * m.size := Nat.mul_le_mul_right m.size hrow

/-- No two cells of the matrix are in one place. -/
theorem position_inj (hv : v < m.size) (hcol : col < m.size) :
    m.position u v = m.position row col ↔ u = row ∧ v = col := by
  refine ⟨fun h => ?_, fun h => by rw [h.1, h.2]⟩
  have hpos : 0 < m.size := Nat.zero_lt_of_lt hv
  have hdiv : ∀ r c, c < m.size → m.position r c / m.size = r := by
    intro r c hc
    rw [position, Nat.mul_comm, Nat.mul_add_div hpos, Nat.div_eq_of_lt hc, Nat.add_zero]
  have hrow : u = row := by
    rw [← hdiv u v hv, h, hdiv row col hcol]
  refine ⟨hrow, ?_⟩
  rw [hrow] at h
  exact Nat.add_left_cancel h

theorem connect?_eq_some (hrow : row < m.size) (hcol : col < m.size) :
    ∃ n, m.connect? row col = some n ∧ n.size = m.size ∧
      ∀ u v, n.Edge u v ↔ m.Edge u v ∨ (u = row ∧ v = col) := by
  have hlt := m.position_lt hrow hcol
  refine ⟨_, dif_pos hlt, rfl, fun u v => ?_⟩
  have hcell : ∀ u v, (m.cells.set (m.position row col) true hlt)[m.position u v]? =
      if m.position row col = m.position u v then some true else m.cell? u v :=
    fun u v => Array.getElem?_set hlt
  by_cases huv : u < m.size ∧ v < m.size
  · by_cases hpos : m.position row col = m.position u v
    · have hsame := (position_inj hcol huv.2).1 hpos
      refine iff_of_true ⟨huv.1, huv.2, ?_⟩ (.inr ⟨hsame.1.symm, hsame.2.symm⟩)
      rw [hasEdge]
      exact congrArg (Option.getD · false) ((hcell u v).trans (if_pos hpos))
    · have hother : ¬ (u = row ∧ v = col) := fun h => hpos (by rw [h.1, h.2])
      rw [or_iff_left hother]
      refine and_congr_right fun _ => and_congr_right fun _ => ?_
      rw [hasEdge, hasEdge]
      exact iff_of_eq (congrArg (Option.getD · false = true) ((hcell u v).trans (if_neg hpos)))
  · have hother : ¬ (u = row ∧ v = col) := fun h => huv ⟨h.1 ▸ hrow, h.2 ▸ hcol⟩
    rw [or_iff_left hother]
    exact iff_of_false (fun h => huv ⟨h.1, h.2.1⟩) fun h => huv ⟨h.1, h.2.1⟩

theorem not_edge_empty (size : Nat) : ¬ (empty size).Edge u v := by
  rintro ⟨-, -, h⟩
  rw [hasEdge, cell?, empty, Array.getElem?_replicate] at h
  split_ifs at h
  · cases h
  · cases h

/-- Enter edges one after the other, if each has a cell. -/
def enter? (m : AdjacencyMatrix) (edges : List (Nat × Nat)) : Option AdjacencyMatrix :=
  edges.foldlM (fun m edge => m.connect? edge.1 edge.2) m

/-- Edges between vertices can all be entered, and no others come with them. -/
theorem enter?_eq_some {edges : List (Nat × Nat)} (h : ∀ edge ∈ edges, edge.1 < m.size ∧ edge.2 < m.size) :
    ∃ n, m.enter? edges = some n ∧ n.size = m.size ∧ ∀ u v, n.Edge u v ↔ m.Edge u v ∨ (u, v) ∈ edges := by
  induction edges generalizing m with
  | nil => exact ⟨m, rfl, rfl, fun u v => (or_iff_left List.not_mem_nil).symm⟩
  | cons edge edges ih =>
    obtain ⟨hedge, hedges⟩ := List.forall_mem_cons.1 h
    obtain ⟨next, hnext, hsize, hcells⟩ := connect?_eq_some hedge.1 hedge.2
    obtain ⟨n, hn, hsize', hcells'⟩ := ih (m := next) (hsize ▸ hedges)
    refine ⟨n, ?_, hsize'.trans hsize, fun u v => ?_⟩
    · rw [enter?, List.foldlM_cons, hnext]
      exact hn
    · rw [hcells', hcells, List.mem_cons, ← Prod.mk.injEq, or_assoc]

theorem foldl_of_enter? {edges : List (Nat × Nat)} (h : m.enter? edges = some n) :
    edges.foldl (fun m edge => (m.connect? edge.1 edge.2).getD m) m = n := by
  induction edges generalizing m with
  | nil => exact Option.some.inj h
  | cons edge edges ih =>
    obtain ⟨next, hnext, h⟩ := Option.bind_eq_some_iff.1 h
    have hget : (m.connect? edge.1 edge.2).getD m = next := congrArg (Option.getD · m) hnext
    rw [List.foldl_cons, hget]
    exact ih h

/-- The graph of some edges has these and no others. -/
theorem edge_ofEdges {size : Nat} {edges : List (Nat × Nat)}
    (h : ∀ edge ∈ edges, edge.1 < size ∧ edge.2 < size) :
    (ofEdges size edges).size = size ∧ ∀ u v, (ofEdges size edges).Edge u v ↔ (u, v) ∈ edges := by
  obtain ⟨n, hn, hsize, hcells⟩ := enter?_eq_some (m := empty size) h
  have hgraph : ofEdges size edges = n := foldl_of_enter? hn
  rw [hgraph]
  exact ⟨hsize, fun u v => (hcells u v).trans (or_iff_right (not_edge_empty size))⟩

end ModelBinding.AdjacencyMatrix
