import ModelBinding.Proofs.Graph.Edges
import ModelBinding.Proofs.Results

/-!
# Cells and edges

A matrix is told by its edges: each cell is the cell of one row and one column, and every row and column
has one. What was entered is in the cells and nothing else is, so the order in which edges are entered, and
how often, makes no difference to the matrix or to how it is sorted.
-/
namespace ModelBinding.AdjacencyMatrix

variable {m n : AdjacencyMatrix} {row col : Nat}

/-! ## The cells of a matrix -/

theorem cell?_eq_some (hrow : row < m.size) (hcol : col < m.size) :
    m.cell? row col = some (m.hasEdge row col) := by
  have hlt := m.position_lt hrow hcol
  have hcell : m.cell? row col = some m.cells[m.position row col] := Array.getElem?_eq_getElem hlt
  rw [hasEdge, hcell, Option.getD_some]

theorem hasEdge_iff (hrow : row < m.size) (hcol : col < m.size) :
    m.hasEdge row col = true ↔ m.Edge row col := by
  rw [Edge, and_iff_right hrow, and_iff_right hcol]

/-- Every place is that of a row and a column. -/
theorem exists_position {place : Nat} (h : place < m.cells.size) :
    ∃ row < m.size, ∃ col < m.size, m.position row col = place := by
  rw [m.cells_size] at h
  have hpos : 0 < m.size := Nat.pos_of_ne_zero fun hzero => by
    rw [hzero] at h
    exact Nat.not_lt_zero _ h
  refine ⟨place / m.size, Nat.div_lt_of_lt_mul h, place % m.size, Nat.mod_lt _ hpos, ?_⟩
  rw [position, Nat.mul_comm]
  exact Nat.div_add_mod place m.size

/-- Matrices of one size with the same edges are the same. -/
theorem eq_of_edge (hsize : m.size = n.size) (h : ∀ u v, m.Edge u v ↔ n.Edge u v) : m = n := by
  have hcells : m.cells = n.cells := by
    refine Array.ext_getElem? fun place => ?_
    by_cases hplace : place < m.cells.size
    · obtain ⟨row, hrow, col, hcol, rfl⟩ := exists_position hplace
      have hedge : m.hasEdge row col = n.hasEdge row col := by
        rw [Bool.eq_iff_iff, hasEdge_iff hrow hcol, hasEdge_iff (hsize ▸ hrow) (hsize ▸ hcol)]
        exact h row col
      have hcell : m.cell? row col = n.cell? row col := by
        rw [cell?_eq_some hrow hcol, cell?_eq_some (hsize ▸ hrow) (hsize ▸ hcol), hedge]
      have hposition : m.position row col = n.position row col := by rw [position, position, hsize]
      rw [cell?, cell?, ← hposition] at hcell
      exact hcell
    · have hother : ¬ place < n.cells.size := by rwa [n.cells_size, ← hsize, ← m.cells_size]
      rw [Array.getElem?_eq_none (Nat.not_lt.1 hplace), Array.getElem?_eq_none (Nat.not_lt.1 hother)]
  cases m
  cases n
  cases hsize
  cases hcells
  rfl

/-! ## Rows -/

/-- From a place on there is the head at this place, and behind it there are the others. -/
theorem exists_getElem?_cons_sub {α : Type} {p : α → Prop} {a : α} {as : List α} {start place : Nat} :
    (start ≤ place ∧ ∃ x, (a :: as)[place - start]? = some x ∧ p x) ↔
      (place = start ∧ p a) ∨
        (start + 1 ≤ place ∧ ∃ x, as[place - (start + 1)]? = some x ∧ p x) := by
  rcases Nat.lt_trichotomy place start with hlt | rfl | hlt
  · exact iff_of_false (by omega) (by omega)
  · rw [Nat.sub_self, List.getElem?_cons_zero]
    simp
  · have hsucc : place - start = place - (start + 1) + 1 := by omega
    have hne : place ≠ start := Nat.ne_of_gt hlt
    rw [hsucc, List.getElem?_cons_succ]
    simp [hne, Nat.le_of_lt hlt, Nat.succ_le_of_lt hlt]

/-- Of a row the cells that are true are entered. -/
theorem edge_connectRow (m : AdjacencyMatrix) (row col : Nat) (cells : List Bool) (hrow : row < m.size)
    (h : col + cells.length ≤ m.size) :
    (m.connectRow row col cells).size = m.size ∧
    ∀ u v, (m.connectRow row col cells).Edge u v ↔
      m.Edge u v ∨ (u = row ∧ col ≤ v ∧ cells[v - col]? = some true) := by
  induction cells generalizing m col with
  | nil => exact ⟨rfl, fun u v => by simp [connectRow]⟩
  | cons cell cells ih =>
    rw [List.length_cons] at h
    -- The first cell, and then those behind it, of which the column is one less.
    have hcells : ∀ v, (col ≤ v ∧ (cell :: cells)[v - col]? = some true) ↔
        (v = col ∧ cell = true) ∨ (col + 1 ≤ v ∧ cells[v - (col + 1)]? = some true) := by
      intro v
      simpa only [exists_eq_right] using @exists_getElem?_cons_sub _ (· = true) cell cells col v
    have hfirst : ∃ next : AdjacencyMatrix, (if cell then (m.connect? row col).getD m else m) = next ∧
        next.size = m.size ∧ ∀ u v, next.Edge u v ↔ m.Edge u v ∨ (u = row ∧ v = col ∧ cell = true) := by
      cases cell with
      | false => exact ⟨m, rfl, rfl, fun u v => by simp⟩
      | true =>
        obtain ⟨next, hnext, hsize, hedges⟩ := connect?_eq_some hrow (by omega : col < m.size)
        exact ⟨next, by rw [if_pos rfl, hnext, Option.getD_some], hsize, fun u v => by simp [hedges]⟩
    obtain ⟨next, hnext, hsize, hedges⟩ := hfirst
    obtain ⟨hsize', hedges'⟩ := ih next (col + 1) (by omega) (by omega)
    rw [connectRow, hnext]
    refine ⟨hsize'.trans hsize, fun u v => ?_⟩
    rw [hedges', hedges, hcells]
    tauto

/-- Of the rows from `row` on the cells that are true are entered, if all have as many columns as they need. -/
theorem connectRows_eq_ok (m : AdjacencyMatrix) (row : Nat) {rows : List (List Bool)}
    (h : row + rows.length ≤ m.size) (hrows : ∀ cells ∈ rows, cells.length = m.size) :
    ∃ n, m.connectRows row rows = .ok n ∧ n.size = m.size ∧ ∀ u v, n.Edge u v ↔
      m.Edge u v ∨ (row ≤ u ∧ ∃ cells, rows[u - row]? = some cells ∧ cells[v]? = some true) := by
  induction rows generalizing m row with
  | nil => exact ⟨m, rfl, rfl, fun u v => by simp⟩
  | cons first rows ih =>
    obtain ⟨hfirst, hrows⟩ := List.forall_mem_cons.1 hrows
    rw [List.length_cons] at h
    obtain ⟨hsize, hedges⟩ := edge_connectRow m row 0 first (by omega) (by omega)
    obtain ⟨n, hn, hsize', hedges'⟩ := ih (m.connectRow row 0 first) (row + 1) (by omega)
      (fun cells hcells => (hrows cells hcells).trans hsize.symm)
    refine ⟨n, ?_, hsize'.trans hsize, fun u v => ?_⟩
    · rw [connectRows, if_pos hfirst, hn]
    · rw [hedges', hedges, or_assoc, exists_getElem?_cons_sub]
      simp

/-- The first row with another number of columns is refused. -/
theorem connectRows_eq_error (m : AdjacencyMatrix) (row : Nat) {rows : List (List Bool)} {e : SortError}
    (h : row + rows.length ≤ m.size) :
    m.connectRows row rows = .error e ↔ ∃ before cells after, rows = before ++ cells :: after ∧
      (∀ other ∈ before, other.length = m.size) ∧ cells.length ≠ m.size ∧
      e = .notSquare m.size cells.length := by
  induction rows generalizing m row with
  | nil => simp [connectRows]
  | cons first rows ih =>
    rw [List.length_cons] at h
    unfold connectRows
    rw [exists_first_cons]
    split_ifs with hfirst
    · have hsize := (edge_connectRow m row 0 first (by omega) (by omega)).1
      rw [ih (m.connectRow row 0 first) (row + 1) (by omega), hsize]
      simp only [hfirst, ne_eq, not_true_eq_false, false_and, false_or, true_and]
    · simp only [hfirst, ne_eq, not_false_eq_true, true_and, false_and, or_false, Except.error.injEq, eq_comm]

/-! ## What is in the cells -/

/-- The cell of a row and a column says whether there is the edge. -/
theorem cell?_of_edge_iff {p : Bool} (hrow : row < m.size) (hcol : col < m.size)
    (h : m.Edge row col ↔ p = true) : m.cell? row col = some p := by
  rw [cell?_eq_some hrow hcol, Option.some.injEq, Bool.eq_iff_iff, hasEdge_iff hrow hcol]
  exact h

theorem enter?_empty {size : Nat} {edges : List (Nat × Nat)}
    (h : ∀ edge ∈ edges, edge.1 < size ∧ edge.2 < size) :
    ∃ m, (empty size).enter? edges = some m ∧ m.size = size ∧ ∀ u v, m.Edge u v ↔ (u, v) ∈ edges := by
  obtain ⟨m, hm, hsize, hedges⟩ := enter?_eq_some (m := empty size) h
  exact ⟨m, hm, hsize, fun u v => (hedges u v).trans (or_iff_right (not_edge_empty size))⟩

theorem enter?_empty_congr {size : Nat} {edges others : List (Nat × Nat)}
    (h : ∀ edge ∈ edges, edge.1 < size ∧ edge.2 < size) (hsame : ∀ edge, edge ∈ others ↔ edge ∈ edges) :
    (empty size).enter? others = (empty size).enter? edges := by
  obtain ⟨m, hm, hsize, hedges⟩ := enter?_empty h
  obtain ⟨n, hn, hsize', hedges'⟩ := enter?_empty fun edge hedge => h edge ((hsame edge).1 hedge)
  rw [hm, hn, eq_of_edge (hsize'.trans hsize.symm) fun u v => ?_]
  rw [hedges', hedges, hsame]

theorem ofRows_eq_error {rows : List (List Bool)} {e : SortError} :
    ofRows rows = .error e ↔ ∃ before cells after, rows = before ++ cells :: after ∧
      (∀ other ∈ before, other.length = rows.length) ∧ cells.length ≠ rows.length ∧
      e = .notSquare rows.length cells.length :=
  connectRows_eq_error (empty rows.length) 0 (Nat.le_of_eq (Nat.zero_add _))

theorem ofRows_eq_ok {rows : List (List Bool)} (h : ∀ cells ∈ rows, cells.length = rows.length) :
    ∃ m, ofRows rows = .ok m ∧ m.size = rows.length ∧
      ∀ (row : Nat) (hrow : row < rows.length), ∀ col < rows.length, m.cell? row col = rows[row][col]? := by
  obtain ⟨m, hm, hsize, hedges⟩ := connectRows_eq_ok (empty rows.length) 0
    (Nat.le_of_eq (Nat.zero_add _)) h
  refine ⟨m, hm, hsize, fun row hrow col hcol => ?_⟩
  have hcol' : col < rows[row].length := by rwa [h _ (List.getElem_mem hrow)]
  rw [List.getElem?_eq_getElem hcol']
  refine cell?_of_edge_iff (hsize.symm ▸ hrow) (hsize.symm ▸ hcol) ?_
  rw [hedges, or_iff_right (not_edge_empty _), Nat.sub_zero, List.getElem?_eq_getElem hrow]
  simp [List.getElem?_eq_getElem hcol']

/--
After edges between vertices have been entered the cells tell which these are, and edges with the same
members are sorted alike, however often and in whatever order they are entered. Of given rows the first
whose number of columns is not that of the rows is refused, and without one the cells are those of the rows.
-/
theorem cells_exact :
    (∀ (size : Nat) (edges : List (Nat × Nat)), (∀ edge ∈ edges, edge.1 < size ∧ edge.2 < size) →
      ∃ m, (empty size).enter? edges = some m ∧ m.size = size ∧
        (∀ row < size, ∀ col < size, m.cell? row col = some (decide ((row, col) ∈ edges))) ∧
        ∀ others, (∀ edge, edge ∈ others ↔ edge ∈ edges) →
          ((empty size).enter? others).map topologicalOrder = some m.topologicalOrder) ∧
    (∀ (rows : List (List Bool)) (e : SortError), ofRows rows = .error e ↔
      ∃ before cells after, rows = before ++ cells :: after ∧
        (∀ other ∈ before, other.length = rows.length) ∧ cells.length ≠ rows.length ∧
        e = .notSquare rows.length cells.length) ∧
    ∀ rows : List (List Bool), (∀ cells ∈ rows, cells.length = rows.length) →
      ∃ m, ofRows rows = .ok m ∧ m.size = rows.length ∧
        ∀ (row : Nat) (hrow : row < rows.length), ∀ col < rows.length, m.cell? row col = rows[row][col]? := by
  refine ⟨fun size edges h => ?_, fun rows e => ofRows_eq_error, fun rows => ofRows_eq_ok⟩
  obtain ⟨m, hm, hsize, hedges⟩ := enter?_empty h
  refine ⟨m, hm, hsize, fun row hrow col hcol => ?_, fun others hsame => ?_⟩
  · refine cell?_of_edge_iff (hsize.symm ▸ hrow) (hsize.symm ▸ hcol) ?_
    rw [hedges, decide_eq_true_eq]
  · rw [enter?_empty_congr h hsame, hm, Option.map_some]

/-- An edge that is entered twice, and rows with that edge. -/
theorem cells_exact_repeated :
    (∃ m, (empty 2).enter? [(0, 1), (0, 1)] = some m ∧ m.cell? 0 1 = some true ∧ m.cell? 1 0 = some false ∧
      ((empty 2).enter? [(0, 1)]).map topologicalOrder = some m.topologicalOrder) ∧
    ∃ m, ofRows [[false, true], [false, false]] = .ok m ∧ m.cell? 0 1 = some true := by
  obtain ⟨m, hm, -, hcells, hsort⟩ := cells_exact.1 2 [(0, 1), (0, 1)] (by simp)
  obtain ⟨n, hn, -, hrows⟩ := cells_exact.2.2 [[false, true], [false, false]] (by simp)
  exact ⟨⟨m, hm, hcells 0 (by decide) 1 (by decide), hcells 1 (by decide) 0 (by decide), hsort [(0, 1)] (by simp)⟩,
    n, hn, hrows 0 (by decide) 1 (by decide)⟩

end ModelBinding.AdjacencyMatrix
