import ModelBinding.Proofs.Graph.Components

/-!
# Sorting a graph

A graph has a topological order exactly if it has no cycle, and the order that is given holds every
vertex once, the row of an edge before its column. Where there is a cycle, the report names the vertices
that lie on one, and no others.
-/
namespace ModelBinding.AdjacencyMatrix

open Elimination Relation

variable {m : AdjacencyMatrix} {order : List Nat}

/-- The vertices in an order in which every edge leads onward. -/
structure Sorts (m : AdjacencyMatrix) (order : List Nat) : Prop where
  perm : order.Perm (List.range m.size)
  edge : ∀ u v, m.Edge u v → order.idxOf u < order.idxOf v

/-- Along a path the order only goes on. -/
theorem Sorts.path (h : m.Sorts order) {u v : Nat} (hpath : m.Path u v) :
    order.idxOf u < order.idxOf v := by
  induction hpath with
  | single hedge => exact h.edge _ _ hedge
  | tail _ hedge ih => exact ih.trans (h.edge _ _ hedge)

theorem Sorts.acyclic (h : m.Sorts order) : m.Acyclic :=
  fun _ hpath => Nat.lt_irrefl _ (h.path hpath)

theorem topologicalOrder_eq_ok : m.topologicalOrder = .ok order ↔
    (run m m.size (start m)).order = order ∧ order.length = m.size := by
  unfold topologicalOrder
  dsimp only
  split_ifs with hlength
  · rw [Except.ok.injEq]
    refine (and_iff_left_of_imp fun h => ?_).symm
    rw [← h, hlength]
  · refine iff_of_false (fun h => nomatch h) fun h => hlength ?_
    rw [h.1, h.2]

/-- Any order that is given sorts the graph. -/
theorem sorts_of_topologicalOrder (h : m.topologicalOrder = .ok order) : m.Sorts order := by
  obtain ⟨rfl, hlength⟩ := topologicalOrder_eq_ok.1 h
  have hinv := (invariant_start m).run m.size
  have hsubperm := hinv.nodup.subperm fun v hv => List.mem_range.2 (hinv.bounded v hv)
  have hperm := hsubperm.perm_of_length_le (by rw [List.length_range, hlength])
  exact ⟨hperm, fun u v hedge => hinv.respects u v hedge (hperm.mem_iff.2 (List.mem_range.2 hedge.2.1))⟩

/-- Without an order the vertices that were not emitted hold a cycle. -/
theorem exists_cycle_of_length_ne (h : (run m m.size (start m)).order.length ≠ m.size) :
    ∃ v, m.Path v v := by
  have hinv := (invariant_start m).run m.size
  have hstop := run_size_of_start m
  let remaining : Set Nat := {v | v < m.size ∧ v ∉ (run m m.size (start m)).order}
  have hne : remaining.Nonempty := by
    by_contra hempty
    have hall : ∀ v ∈ List.range m.size, v ∈ (run m m.size (start m)).order := by
      intro v hv
      by_contra hnotMem
      exact hempty ⟨v, List.mem_range.1 hv, hnotMem⟩
    have hle := (List.nodup_range.subperm hall).length_le
    rw [List.length_range] at hle
    exact h (Nat.le_antisymm hinv.length_le hle)
  refine exists_cycle hne fun v hv => ?_
  obtain ⟨u, hu, hedge⟩ := hinv.exists_predecessor hstop hv.1 hv.2
  exact ⟨u, ⟨hedge.1, hu⟩, hedge⟩

theorem exists_topologicalOrder (h : m.Acyclic) : ∃ order, m.topologicalOrder = .ok order := by
  by_cases hlength : (run m m.size (start m)).order.length = m.size
  · exact ⟨_, topologicalOrder_eq_ok.2 ⟨rfl, hlength⟩⟩
  · obtain ⟨v, hv⟩ := exists_cycle_of_length_ne hlength
    exact absurd hv (h v)

/-- What cannot be sorted is reported with the members of its cycles. -/
theorem topologicalOrder_of_cycle {v : Nat} (h : m.Path v v) :
    m.topologicalOrder = .error (.cycle m.cycleMembers) := by
  cases hresult : m.topologicalOrder with
  | ok order => exact absurd h ((sorts_of_topologicalOrder hresult).acyclic v)
  | error e =>
    unfold topologicalOrder at hresult
    dsimp only at hresult
    split_ifs at hresult
    exact hresult.symm

/--
A graph is sorted exactly if no path leads back to where it begins, a single edge included; an order
that is given holds each vertex once and the row of an edge before its column, and where there is a
cycle nothing but the report of a cycle is given.
-/
theorem topologicalOrder_correct (m : AdjacencyMatrix) :
    ((∃ order, m.topologicalOrder = .ok order) ↔ ∀ v, ¬ TransGen m.Edge v v) ∧
    (∀ order, m.topologicalOrder = .ok order → order.Perm (List.range m.size) ∧
      ∀ r c, m.Edge r c → order.idxOf r < order.idxOf c) ∧
    ((∃ v, TransGen m.Edge v v) → ∃ members, m.topologicalOrder = .error (.cycle members)) := by
  refine ⟨⟨?_, exists_topologicalOrder⟩, fun order horder => ?_, ?_⟩
  · rintro ⟨order, horder⟩
    exact (sorts_of_topologicalOrder horder).acyclic
  · have hsorts := sorts_of_topologicalOrder horder
    exact ⟨hsorts.perm, hsorts.edge⟩
  · rintro ⟨v, hv⟩
    exact ⟨m.cycleMembers, topologicalOrder_of_cycle hv⟩

/-! ## The report of a cycle -/

/--
A report of a cycle is not empty and names in increasing order the vertices that a path leads back to:
not those that only lead to a cycle or are led to from one. They are also told by the components of the
graph, which holds a cycle in those with more than one vertex or with an edge from a vertex to itself.
-/
theorem topologicalOrder_eq_cycle (m : AdjacencyMatrix) (members : List Nat) :
    (m.topologicalOrder = .error (.cycle members) ↔
      members ≠ [] ∧ members.Pairwise (· < ·) ∧ ∀ v, v ∈ members ↔ TransGen m.Edge v v) ∧
    (∃ components, m.Components components) ∧
    ∀ components, m.Components components → m.topologicalOrder = .error (.cycle members) →
      m.cycleMembersOf components = members := by
  have hreport : m.topologicalOrder = .error (.cycle members) ↔
      members ≠ [] ∧ members.Pairwise (· < ·) ∧ ∀ v, v ∈ members ↔ m.Path v v := by
    constructor
    · intro h
      have hcycle : ∃ v, m.Path v v := by
        by_contra hacyclic
        obtain ⟨order, horder⟩ := exists_topologicalOrder (not_exists.1 hacyclic)
        rw [h] at horder
        cases horder
      obtain ⟨v, hv⟩ := hcycle
      rw [topologicalOrder_of_cycle hv] at h
      obtain rfl := SortError.cycle.inj (Except.error.inj h)
      exact ⟨List.ne_nil_of_mem (mem_cycleMembers.2 hv), m.pairwise_cycleMembers,
        fun v => mem_cycleMembers⟩
    · rintro ⟨hne, hsorted, hmem⟩
      obtain ⟨v, hv⟩ := List.exists_mem_of_ne_nil members hne
      rw [topologicalOrder_of_cycle ((hmem v).1 hv), eq_cycleMembers hsorted hmem]
  refine ⟨hreport, m.exists_components, fun components hcomponents h => ?_⟩
  obtain ⟨-, hsorted, hmem⟩ := hreport.1 h
  rw [hcomponents.cycleMembersOf_eq, eq_cycleMembers hsorted hmem]

/-- The first vertex leads to a cycle of two, and the last is led to from it. -/
example : (tabulate 4 fun r c => [(0, 1), (1, 2), (2, 1), (2, 3)].contains (r, c)).topologicalOrder =
    .error (.cycle [1, 2]) := by decide

end ModelBinding.AdjacencyMatrix
