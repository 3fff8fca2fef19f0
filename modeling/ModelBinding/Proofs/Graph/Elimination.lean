import Mathlib.Data.List.Nodup
import ModelBinding.Proofs.Graph.Paths

/-!
# Elimination

What holds while vertices are emitted: each vertex is counted down once for each predecessor that
has been emitted, and exactly the vertices that are counted down to zero can be emitted next.
-/
namespace ModelBinding

open AdjacencyMatrix

variable {m : AdjacencyMatrix} {s : Elimination} {u v w : Nat}

namespace AdjacencyMatrix

/-- A vertex that can be emitted next: it has not been, and all that leads to it has. -/
def Available (m : AdjacencyMatrix) (order : List Nat) (v : Nat) : Prop :=
  v < m.size ∧ v ∉ order ∧ ∀ u, m.Edge u v → u ∈ order

/-- How many predecessors of a vertex have not been emitted. -/
def waiting (m : AdjacencyMatrix) (order : List Nat) (v : Nat) : Nat :=
  (m.predecessors v).countP (· ∉ order)

theorem waiting_eq_zero {order : List Nat} (hw : w < m.size) :
    m.waiting order w = 0 ↔ ∀ v, m.Edge v w → v ∈ order := by
  rw [waiting, List.countP_eq_zero]
  simp only [mem_predecessors hw, decide_eq_true_eq, not_not]

/-- Emitting a vertex takes one from each of its successors. -/
theorem waiting_append {order : List Nat} (hv : v ∉ order) (hvlt : v < m.size) (hw : w < m.size) :
    m.waiting order w = m.waiting (order ++ [v]) w + (m.successors v).count w := by
  have hcount : ∀ vertices : List Nat, vertices.countP (· ∉ order) =
      vertices.countP (· ∉ order ++ [v]) + vertices.count v := by
    intro vertices
    induction vertices with
    | nil => rfl
    | cons u vertices ih =>
      rw [List.countP_cons, List.countP_cons, List.count_cons, ih]
      by_cases hu : u = v
      · subst hu
        simp [hv]
        omega
      · simp [hu]
        omega
  have hedge : (m.predecessors w).count v = (m.successors v).count w := by
    rw [(m.nodup_predecessors w).count, (m.nodup_successors v).count]
    exact if_congr ((mem_predecessors hw).trans (mem_successors hvlt).symm) rfl rfl
  rw [waiting, hcount, hedge, waiting]

end AdjacencyMatrix

namespace Elimination

/-! ## The ready vertices -/

theorem mem_insertReady {ready : List Nat} : w ∈ insertReady v ready ↔ w = v ∨ w ∈ ready := by
  induction ready with
  | nil => rw [insertReady, List.mem_singleton, or_iff_left List.not_mem_nil]
  | cons u ready ih =>
    unfold insertReady
    split_ifs
    · exact List.mem_cons
    · rw [List.mem_cons, ih, List.mem_cons]
      exact or_left_comm

theorem pairwise_insertReady {ready : List Nat} (h : ready.Pairwise (· < ·)) (hv : v ∉ ready) :
    (insertReady v ready).Pairwise (· < ·) := by
  induction ready with
  | nil => exact List.pairwise_singleton _ v
  | cons u ready ih =>
    obtain ⟨hbelow, hrest⟩ := List.pairwise_cons.1 h
    obtain ⟨hne, hnotMem⟩ := not_or.1 (mt List.mem_cons.2 hv)
    unfold insertReady
    split_ifs with hlt
    · refine List.pairwise_cons.2 ⟨fun w hw => ?_, h⟩
      rcases List.mem_cons.1 hw with rfl | hw
      · exact hlt
      · exact hlt.trans (hbelow w hw)
    · refine List.pairwise_cons.2 ⟨fun w hw => ?_, ih hrest hnotMem⟩
      rcases mem_insertReady.1 hw with rfl | hw
      · omega
      · exact hbelow w hw

/-! ## Counting down -/

/-- The counts of a state in which some vertices still have to be counted down. -/
structure Counts (m : AdjacencyMatrix) (pending : List Nat) (s : Elimination) : Prop where
  length : s.inDegree.length = m.size
  degree : ∀ w < m.size, s.inDegree.getD w 0 = m.waiting s.order w + pending.count w
  ready : ∀ w, w ∈ s.ready ↔ w < m.size ∧ w ∉ s.order ∧ s.inDegree.getD w 0 = 0
  sorted : s.ready.Pairwise (· < ·)

@[simp] theorem order_release (s : Elimination) (v : Nat) : (s.release v).order = s.order := rfl

theorem getD_release (s : Elimination) (hv : v < s.inDegree.length) (w : Nat) :
    (s.release v).inDegree.getD w 0 =
      if w = v then s.inDegree.getD v 0 - 1 else s.inDegree.getD w 0 := by
  rw [release, List.getD_eq_getElem?_getD, List.getElem?_set]
  by_cases hw : v = w
  · subst hw
    rw [if_pos rfl, if_pos hv, if_pos rfl, Option.getD_some]
  · rw [if_neg hw, if_neg (Ne.symm hw), List.getD_eq_getElem?_getD]

theorem mem_ready_release : w ∈ (s.release v).ready ↔
    w ∈ s.ready ∨ (w = v ∧ s.inDegree.getD v 0 - 1 = 0) := by
  unfold release
  dsimp only
  split_ifs with hdegree
  · rw [mem_insertReady, and_iff_left hdegree, or_comm]
  · rw [or_iff_left fun h => hdegree h.2]

section Release

variable {pending : List Nat} (h : Counts m (v :: pending) s) (hv : v < m.size)
include h hv

/-- Nothing is counted down below zero. -/
theorem Counts.degree_pos : 0 < s.inDegree.getD v 0 := by
  rw [h.degree v hv, List.count_cons_self]
  omega

/-- A vertex that is counted down is not ready before. -/
theorem Counts.notMem_ready : v ∉ s.ready := by
  intro hready
  have hzero := ((h.ready v).1 hready).2.2
  have hpos := h.degree_pos hv
  omega

theorem Counts.release (hv' : v ∉ s.order) : Counts m pending (s.release v) := by
  have hlength : v < s.inDegree.length := by rw [h.length]; exact hv
  have hpos := h.degree_pos hv
  refine ⟨?_, fun w hw => ?_, fun w => ?_, ?_⟩
  · exact List.length_set.trans h.length
  · rw [getD_release s hlength, order_release]
    have hdegree := h.degree w hw
    by_cases hwv : w = v
    · subst hwv
      rw [if_pos rfl]
      rw [List.count_cons_self] at hdegree
      omega
    · rw [if_neg hwv]
      rwa [List.count_cons_of_ne (Ne.symm hwv)] at hdegree
  · rw [mem_ready_release, getD_release s hlength, order_release, h.ready w]
    by_cases hwv : w = v
    · subst hwv
      rw [if_pos rfl]
      constructor
      · rintro (⟨-, -, hzero⟩ | ⟨-, hzero⟩)
        · omega
        · exact ⟨hv, hv', hzero⟩
      · exact fun hready => .inr ⟨rfl, hready.2.2⟩
    · rw [if_neg hwv, or_iff_left fun h => hwv h.1]
  · unfold Elimination.release
    dsimp only
    split_ifs
    · exact pairwise_insertReady h.sorted (h.notMem_ready hv)
    · exact h.sorted

end Release

@[simp] theorem order_foldl_release (s : Elimination) (pending : List Nat) :
    (pending.foldl release s).order = s.order := by
  induction pending generalizing s with
  | nil => rfl
  | cons v pending ih => rw [List.foldl_cons, ih, order_release]

theorem Counts.foldl_release {pending : List Nat} (h : Counts m pending s)
    (hpending : ∀ v ∈ pending, v < m.size ∧ v ∉ s.order) :
    Counts m [] (pending.foldl Elimination.release s) := by
  induction pending generalizing s with
  | nil => exact h
  | cons v pending ih =>
    obtain ⟨⟨hv, hv'⟩, hrest⟩ := List.forall_mem_cons.1 hpending
    exact ih (h.release hv hv') hrest

/-! ## Steps -/

/-- What holds between steps. -/
structure Invariant (m : AdjacencyMatrix) (s : Elimination) : Prop where
  counts : Counts m [] s
  nodup : s.order.Nodup
  bounded : ∀ v ∈ s.order, v < m.size
  respects : ∀ u v, m.Edge u v → v ∈ s.order → s.order.idxOf u < s.order.idxOf v

theorem invariant_start (m : AdjacencyMatrix) : Invariant m (start m) := by
  have hdegree : ∀ w < m.size, (start m).inDegree.getD w 0 = (m.predecessors w).length := by
    intro w hw
    rw [start, List.getD_eq_getElem?_getD, List.getElem?_map, vertices, List.getElem?_range hw]
    rfl
  refine ⟨⟨?_, fun w hw => ?_, fun w => ?_, ?_⟩, List.nodup_nil, ?_, ?_⟩
  · rw [start, List.length_map, vertices, List.length_range]
  · rw [hdegree w hw, List.count_nil, Nat.add_zero, waiting, List.countP_eq_length.2]
    exact fun v _ => decide_eq_true List.not_mem_nil
  · have hready : w ∈ (start m).ready ↔ w < m.size ∧ (start m).inDegree.getD w 0 = 0 := by
      rw [start, List.mem_filter, mem_vertices, decide_eq_true_eq]
    rw [hready]
    exact and_congr_right fun _ => (and_iff_right List.not_mem_nil).symm
  · exact List.Pairwise.filter _ List.pairwise_lt_range
  · exact fun v hv => absurd hv List.not_mem_nil
  · exact fun u v _ hv => absurd hv List.not_mem_nil

/-- Between steps the ready vertices are all that can be emitted next. -/
theorem Invariant.mem_ready (h : Invariant m s) : v ∈ s.ready ↔ m.Available s.order v := by
  rw [h.counts.ready v]
  refine and_congr_right fun hv => and_congr_right fun _ => ?_
  rw [h.counts.degree v hv, List.count_nil, Nat.add_zero, waiting_eq_zero hv]

theorem step_of_ready {rest : List Nat} (h : s.ready = v :: rest) : step m s =
    (m.successors v).foldl release { s with ready := rest, order := s.order ++ [v] } := by
  rw [step, h]

theorem step_of_not_ready (h : s.ready = []) : step m s = s := by
  rw [step, h]

theorem order_step {rest : List Nat} (h : s.ready = v :: rest) :
    (step m s).order = s.order ++ [v] := by
  rw [step_of_ready h, order_foldl_release]

section Step

variable {rest : List Nat} (h : Invariant m s) (hready : s.ready = v :: rest)
include h hready

/-- What is emitted next can be emitted. -/
theorem Invariant.head_ready : m.Available s.order v :=
  h.mem_ready.1 (hready ▸ List.mem_cons_self)

/-- It is the least of what can be. -/
theorem Invariant.head_le (hw : m.Available s.order w) : v ≤ w := by
  have hmem := h.mem_ready.2 hw
  have hsorted := h.counts.sorted
  rw [hready] at hmem hsorted
  rcases List.mem_cons.1 hmem with rfl | hmem
  · exact Nat.le_refl w
  · exact Nat.le_of_lt ((List.pairwise_cons.1 hsorted).1 w hmem)

/-- Nothing that an emitted vertex leads to has been emitted. -/
theorem Invariant.successor_notMem (hedge : m.Edge v w) : w ∉ s.order ++ [v] := by
  obtain ⟨-, hnotMem, hleads⟩ := h.head_ready hready
  intro hw
  rcases List.mem_append.1 hw with hw | hw
  · have hlt := h.respects v w hedge hw
    exact hnotMem (List.idxOf_lt_length_iff.1 (hlt.trans (List.idxOf_lt_length_of_mem hw)))
  · rw [List.mem_singleton] at hw
    subst hw
    exact hnotMem (hleads w hedge)

/-- Taking the first ready vertex leaves its successors to be counted down. -/
theorem Invariant.counts_successors : Counts m (m.successors v)
    { s with ready := rest, order := s.order ++ [v] } := by
  obtain ⟨hv, hnotMem, -⟩ := h.head_ready hready
  have hsorted := h.counts.sorted
  rw [hready] at hsorted
  obtain ⟨hbelow, hrest⟩ := List.pairwise_cons.1 hsorted
  refine ⟨h.counts.length, fun w hw => ?_, fun w => ?_, hrest⟩
  · have hdegree := h.counts.degree w hw
    rw [List.count_nil, Nat.add_zero, waiting_append hnotMem hv hw] at hdegree
    exact hdegree
  · have hmem := h.counts.ready w
    rw [hready, List.mem_cons] at hmem
    rw [List.mem_append, List.mem_singleton]
    constructor
    · intro hw
      obtain ⟨hlt, hnotMem, hzero⟩ := hmem.1 (.inr hw)
      exact ⟨hlt, not_or.2 ⟨hnotMem, (hbelow w hw).ne'⟩, hzero⟩
    · rintro ⟨hlt, hout, hzero⟩
      obtain ⟨hnotMem, hne⟩ := not_or.1 hout
      exact (hmem.2 ⟨hlt, hnotMem, hzero⟩).resolve_left hne

theorem Invariant.step_of_ready : Invariant m (step m s) := by
  obtain ⟨hv, hnotMem, hleads⟩ := h.head_ready hready
  have horder := order_step (m := m) hready
  refine ⟨?_, ?_, fun w hw => ?_, fun u w hedge hw => ?_⟩
  · rw [Elimination.step_of_ready hready]
    refine (h.counts_successors hready).foldl_release fun w hw => ?_
    have hedge := (mem_successors hv).1 hw
    exact ⟨hedge.2.1, h.successor_notMem hready hedge⟩
  · rw [horder]
    exact List.nodup_append.2 ⟨h.nodup, List.nodup_singleton v, fun a ha b hb hab =>
      hnotMem (List.mem_singleton.1 hb ▸ hab ▸ ha)⟩
  · rw [horder] at hw
    rcases List.mem_append.1 hw with hw | hw
    · exact h.bounded w hw
    · exact List.mem_singleton.1 hw ▸ hv
  · rw [horder] at hw ⊢
    rcases List.mem_append.1 hw with hw | hw
    · have hlt := h.respects u w hedge hw
      have hu := List.idxOf_lt_length_iff.1 (hlt.trans (List.idxOf_lt_length_of_mem hw))
      rw [List.idxOf_append_of_mem hu, List.idxOf_append_of_mem hw]
      exact hlt
    · rw [List.mem_singleton] at hw
      subst hw
      have hu := hleads u hedge
      rw [List.idxOf_append_of_mem hu, List.idxOf_append_of_notMem hnotMem]
      exact Nat.lt_add_right _ (List.idxOf_lt_length_of_mem hu)

end Step

/-- A step keeps the invariant. -/
theorem Invariant.step (h : Invariant m s) : Invariant m (step m s) := by
  cases hready : s.ready with
  | nil =>
    rw [step_of_not_ready hready]
    exact h
  | cons v rest => exact h.step_of_ready hready

/-! ## Runs -/

theorem Invariant.run (h : Invariant m s) (steps : Nat) : Invariant m (run m steps s) := by
  induction steps generalizing s with
  | zero => exact h
  | succ steps ih => exact ih h.step

theorem run_of_not_ready (h : s.ready = []) (steps : Nat) : run m steps s = s := by
  induction steps with
  | zero => rfl
  | succ steps ih => rw [run, step_of_not_ready h, ih]

/-- Each step emits a vertex, until none is ready. -/
theorem length_order_run (m : AdjacencyMatrix) (s : Elimination) (steps : Nat) :
    (run m steps s).ready = [] ∨ (run m steps s).order.length = s.order.length + steps := by
  induction steps generalizing s with
  | zero => exact .inr rfl
  | succ steps ih =>
    cases hready : s.ready with
    | nil =>
      rw [run_of_not_ready hready]
      exact .inl hready
    | cons v rest =>
      rcases ih (step m s) with hstop | hlength
      · exact .inl hstop
      · refine .inr ?_
        rw [run, hlength, order_step hready, List.length_append, List.length_singleton,
          Nat.add_assoc, Nat.add_comm 1]

theorem Invariant.length_le (h : Invariant m s) : s.order.length ≤ m.size := by
  rw [← List.length_range (n := m.size)]
  exact (h.nodup.subperm fun v hv => List.mem_range.2 (h.bounded v hv)).length_le

/-- As many steps as there are vertices are enough. -/
theorem run_size_of_start (m : AdjacencyMatrix) : (run m m.size (start m)).ready = [] := by
  have hinv := (invariant_start m).run m.size
  rcases length_order_run m (start m) m.size with hstop | hlength
  · exact hstop
  · refine List.eq_nil_iff_forall_not_mem.2 fun v hv => ?_
    obtain ⟨hlt, hnotMem, -⟩ := (hinv.counts.ready v).1 hv
    have hsubperm := hinv.nodup.subperm fun v hv => List.mem_range.2 (hinv.bounded v hv)
    have hperm := hsubperm.perm_of_length_le (by
      rw [List.length_range, hlength]
      exact Nat.le_add_left _ _)
    exact hnotMem (hperm.mem_iff.2 (List.mem_range.2 hlt))

/-- What remains when nothing is ready is led to from within. -/
theorem Invariant.exists_predecessor (h : Invariant m s) (hstop : s.ready = []) (hv : v < m.size)
    (hnotMem : v ∉ s.order) : ∃ u, u ∉ s.order ∧ m.Edge u v := by
  by_contra hnone
  have hready : v ∈ s.ready := h.mem_ready.2 ⟨hv, hnotMem, fun u hedge => by
    by_contra hu
    exact hnone ⟨u, hu, hedge⟩⟩
  rw [hstop] at hready
  exact List.not_mem_nil hready

end Elimination

end ModelBinding
