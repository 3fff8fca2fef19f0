/-!
# Adjacency matrices

A directed graph on the vertices below `size`, one cell for each pair of them. The cells are one
array, row after row.
-/
namespace ModelBinding

structure AdjacencyMatrix where
  size : Nat
  cells : Array Bool
  cells_size : cells.size = size * size

namespace AdjacencyMatrix

/-- No edges. -/
def empty (size : Nat) : AdjacencyMatrix where
  size := size
  cells := Array.replicate (size * size) false
  cells_size := Array.size_replicate

/-- The edges for which a test holds. -/
def tabulate (size : Nat) (test : Nat → Nat → Bool) : AdjacencyMatrix where
  size := size
  cells := Array.ofFn (n := size * size) fun i => test (i / size) (i % size)
  cells_size := Array.size_ofFn

/-- Where the cell of a row and a column is. -/
def position (m : AdjacencyMatrix) (row col : Nat) : Nat := row * m.size + col

/-- The cell of a row and a column, if it is one of the matrix. -/
def cell? (m : AdjacencyMatrix) (row col : Nat) : Option Bool := m.cells[m.position row col]?

/-- Enter the edge from `row` to `col`, if it has a cell. -/
def connect? (m : AdjacencyMatrix) (row col : Nat) : Option AdjacencyMatrix :=
  if h : m.position row col < m.cells.size then
    some { m with
      cells := m.cells.set (m.position row col) true h
      cells_size := by rw [Array.size_set, m.cells_size] }
  else none

def hasEdge (m : AdjacencyMatrix) (row col : Nat) : Bool := (m.cell? row col).getD false

def vertices (m : AdjacencyMatrix) : List Nat := List.range m.size

def successors (m : AdjacencyMatrix) (v : Nat) : List Nat := m.vertices.filter (m.hasEdge v)

def predecessors (m : AdjacencyMatrix) (v : Nat) : List Nat := m.vertices.filter (m.hasEdge · v)

theorem hasEdge_tabulate {size row col : Nat} (test : Nat → Nat → Bool) (hrow : row < size)
    (hcol : col < size) : (tabulate size test).hasEdge row col = test row col := by
  have hlt : row * size + col < size * size := by
    calc row * size + col < row * size + size := by omega
      _ = (row + 1) * size := by rw [Nat.succ_mul]
      _ ≤ size * size := Nat.mul_le_mul_right size hrow
  have hdiv : (row * size + col) / size = row := by
    rw [Nat.mul_comm, Nat.mul_add_div (by omega), Nat.div_eq_of_lt hcol, Nat.add_zero]
  have hmod : (row * size + col) % size = col := by
    rw [Nat.mul_comm, Nat.mul_add_mod, Nat.mod_eq_of_lt hcol]
  simp [hasEdge, cell?, position, tabulate, hlt, hdiv, hmod]

end AdjacencyMatrix

inductive SortError where
  /-- A row does not have as many columns as there are rows. -/
  | notSquare (rows cols : Nat)
  /-- The vertices that lie on a cycle. -/
  | cycle (members : List Nat)
deriving DecidableEq

namespace AdjacencyMatrix

/-- Enter the edges of a row, its cells from the column `col` on. -/
def connectRow (m : AdjacencyMatrix) (row col : Nat) : List Bool → AdjacencyMatrix
  | [] => m
  | cell :: cells =>
    connectRow (if cell then (m.connect? row col).getD m else m) row (col + 1) cells

/-- Enter the edges of the rows from `row` on, up to one that has not as many columns as there are rows. -/
def connectRows (m : AdjacencyMatrix) (row : Nat) : List (List Bool) → Except SortError AdjacencyMatrix
  | [] => .ok m
  | cells :: rows =>
    if cells.length = m.size then connectRows (m.connectRow row 0 cells) (row + 1) rows
    else .error (.notSquare m.size cells.length)

/-- The matrix of given rows. -/
def ofRows (rows : List (List Bool)) : Except SortError AdjacencyMatrix :=
  connectRows (empty rows.length) 0 rows

end AdjacencyMatrix

end ModelBinding
