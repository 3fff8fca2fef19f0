import Mathlib.Data.List.GetD
import ModelBinding.Proofs.Graph.Elimination

/-!
# The moments of an elimination

A step of the elimination goes through the edges that leave the vertex it emits, one after the other.
Between two of them the counts are not those that hold between steps, and yet no count is ever at zero
when it is to be lowered, no vertex becomes ready twice and no edge is gone through twice. In which order
the edges of a vertex are gone through makes no difference to what a step comes to.
-/
namespace ModelBinding.Elimination

open AdjacencyMatrix Relation

variable {m : AdjacencyMatrix} {s s' : Elimination} {v w : Nat}

/-! ## Moves -/

/-- The vertices that become ready when one predecessor of `v` is counted down: itself or none. -/
def pushes (s : Elimination) (v : Nat) : List Nat :=
  if s.inDegree.getD v 0 - 1 = 0 then [v] else []

/-- How far the elimination has come within a step, and what it has done up to here. -/
structure Moment where
  state : Elimination
  /-- The edges that leave the vertex emitted last and have not been gone through. -/
  pending : List (Nat × Nat)
  /-- The edges that have been gone through. -/
  consumed : List (Nat × Nat)
  /-- The vertices that have become ready, each as often as it has. -/
  pushed : List Nat

namespace Moment

def start (m : AdjacencyMatrix) : Moment where
  state := .start m
  pending := []
  consumed := []
  pushed := (Elimination.start m).ready

/-- One move: emit the first ready vertex, or go through one edge that leaves it. -/
inductive Next (m : AdjacencyMatrix) : Moment → Moment → Prop where
  /-- The edges of the emitted vertex are gone through in any order. -/
  | emit {t : Moment} {v : Nat} {rest : List Nat} {pending : List (Nat × Nat)} (hidle : t.pending = [])
      (hready : t.state.ready = v :: rest) (hpending : pending.Perm ((m.successors v).map (Prod.mk v))) :
      Next m t { t with
        state := { t.state with ready := rest, order := t.state.order ++ [v] }
        pending := pending }
  | consume {t : Moment} {v w : Nat} {pending : List (Nat × Nat)} (hpending : t.pending = (v, w) :: pending) :
      Next m t {
        state := t.state.release w
        pending := pending
        consumed := t.consumed ++ [(v, w)]
        pushed := t.pushed ++ t.state.pushes w }

def Reachable (m : AdjacencyMatrix) (t : Moment) : Prop := ReflTransGen (Next m) (start m) t

end Moment

/-! ## Counts -/

theorem perm_insertReady (v : Nat) (ready : List Nat) : (insertReady v ready).Perm (v :: ready) := by
  induction ready with
  | nil => exact .refl _
  | cons w ready ih =>
    unfold insertReady
    split_ifs
    · exact .refl _
    · exact (ih.cons w).trans (.swap v w ready)

theorem perm_ready_release (s : Elimination) (v : Nat) :
    (s.release v).ready.Perm (s.ready ++ s.pushes v) := by
  unfold release pushes
  dsimp only
  split_ifs
  · exact (perm_insertReady v s.ready).trans (List.perm_append_singleton v s.ready).symm
  · rw [List.append_nil]

theorem Counts.of_perm {pending others : List Nat} (h : Counts m pending s) (hperm : pending.Perm others) :
    Counts m others s where
  length := h.length
  degree w hw := by rw [h.degree w hw, hperm.count_eq]
  ready := h.ready
  sorted := h.sorted

/-- Between steps the counts are told by the order. -/
theorem Counts.eq_of_order (h : Counts m [] s) (h' : Counts m [] s') (horder : s.order = s'.order) : s = s' := by
  have hdegree : s.inDegree = s'.inDegree := by
    refine List.ext_getElem (h.length.trans h'.length.symm) fun w hw hw' => ?_
    have hlt : w < m.size := h.length ▸ hw
    have hcount := (h.degree w hlt).trans (horder ▸ (h'.degree w hlt).symm)
    rwa [List.getD_eq_getElem _ _ hw, List.getD_eq_getElem _ _ hw'] at hcount
  have hready : s.ready = s'.ready := by
    have hnodup : ∀ ready : List Nat, ready.Pairwise (· < ·) → ready.Nodup :=
      fun _ hsorted => hsorted.imp fun hlt => Nat.ne_of_lt hlt
    have hperm : s.ready.Perm s'.ready := by
      refine (List.perm_ext_iff_of_nodup (hnodup _ h.sorted) (hnodup _ h'.sorted)).2 fun w => ?_
      rw [h.ready, h'.ready, horder, hdegree]
    exact hperm.eq_of_pairwise (fun v w _ _ hlt hgt => absurd hlt (Nat.lt_asymm hgt)) h.sorted h'.sorted
  cases s
  cases s'
  cases hdegree
  cases hready
  cases horder
  rfl

theorem Counts.ready_nodup {pending : List Nat} (h : Counts m pending s) (hnodup : s.order.Nodup) :
    (s.order ++ s.ready).Nodup := by
  refine List.nodup_append.2 ⟨hnodup, h.sorted.imp fun hlt => Nat.ne_of_lt hlt, fun v hv w hw heq => ?_⟩
  exact ((h.ready w).1 hw).2.1 (heq ▸ hv)

/-- One more step is one at the end as well as one at the beginning. -/
theorem run_succ (m : AdjacencyMatrix) (steps : Nat) (s : Elimination) :
    run m (steps + 1) s = step m (run m steps s) := by
  induction steps generalizing s with
  | zero => rfl
  | succ steps ih => exact ih (step m s)

/-! ## What holds at every moment -/

namespace Moment

variable {t t' : Moment}

/-- What holds within steps as well as between them. -/
structure Sound (m : AdjacencyMatrix) (t : Moment) : Prop where
  counts : Counts m (t.pending.map Prod.snd) t.state
  nodup : t.state.order.Nodup
  bounded : ∀ v ∈ t.state.order, v < m.size
  respects : ∀ u v, m.Edge u v → v ∈ t.state.order → t.state.order.idxOf u < t.state.order.idxOf v
  /-- What is still to be counted down has not been emitted. -/
  fresh : ∀ edge ∈ t.pending, edge.2 ∉ t.state.order
  once : (t.consumed ++ t.pending).Nodup
  /-- The edges of all emitted vertices have been gone through or are still to be. -/
  edges : ∀ v w, (v, w) ∈ t.consumed ++ t.pending ↔ m.Edge v w ∧ v ∈ t.state.order
  pushed : t.pushed.Perm (t.state.order ++ t.state.ready)
  /-- As many steps emit the same vertices. -/
  order : t.state.order = (run m t.state.order.length (Elimination.start m)).order

theorem sound_start (m : AdjacencyMatrix) : Sound m (start m) where
  counts := (invariant_start m).counts
  nodup := (invariant_start m).nodup
  bounded := (invariant_start m).bounded
  respects := (invariant_start m).respects
  fresh := List.forall_mem_nil _
  once := List.nodup_nil
  edges _ _ := iff_of_false List.not_mem_nil fun h => List.not_mem_nil h.2
  pushed := .refl _
  order := rfl

theorem Sound.invariant (h : Sound m t) (hidle : t.pending = []) : Invariant m t.state where
  counts := by
    have hcounts := h.counts
    rwa [hidle] at hcounts
  nodup := h.nodup
  bounded := h.bounded
  respects := h.respects

/-- Between steps the state is that of as many steps as vertices have been emitted. -/
theorem Sound.state_eq (h : Sound m t) (hidle : t.pending = []) :
    t.state = run m t.state.order.length (Elimination.start m) :=
  (h.invariant hidle).counts.eq_of_order ((invariant_start m).run _).counts h.order

section Emit

variable {rest : List Nat} {pending : List (Nat × Nat)} (h : Sound m t) (hidle : t.pending = [])
  (hready : t.state.ready = v :: rest)
include h hidle hready

/-- The edges of the emitted vertex have not been gone through, because it had not been emitted. -/
theorem Sound.edges_emit (hpending : pending.Perm ((m.successors v).map (Prod.mk v))) :
    (t.consumed ++ pending).Nodup ∧
    ∀ u w, (u, w) ∈ t.consumed ++ pending ↔ m.Edge u w ∧ u ∈ t.state.order ++ [v] := by
  obtain ⟨hv, hnotMem, -⟩ := (h.invariant hidle).head_ready hready
  have hedges := h.edges
  have honce := h.once
  rw [hidle, List.append_nil] at hedges honce
  have hmem : ∀ u w, (u, w) ∈ pending ↔ m.Edge u w ∧ u = v := by
    intro u w
    rw [hpending.mem_iff, List.mem_map]
    constructor
    · rintro ⟨w, hw, heq⟩
      cases heq
      exact ⟨(mem_successors hv).1 hw, rfl⟩
    · rintro ⟨hedge, rfl⟩
      exact ⟨w, (mem_successors hv).2 hedge, rfl⟩
  constructor
  · refine List.nodup_append.2 ⟨honce, hpending.nodup_iff.2 ?_, ?_⟩
    · exact (m.nodup_successors v).map fun _ _ heq => (Prod.mk.inj heq).2
    · rintro ⟨u, w⟩ hconsumed _ hother rfl
      exact hnotMem (((hmem u w).1 hother).2 ▸ ((hedges u w).1 hconsumed).2)
  · intro u w
    rw [List.mem_append, hedges, hmem, List.mem_append, List.mem_singleton, and_or_left]

theorem Sound.emit (hpending : pending.Perm ((m.successors v).map (Prod.mk v))) : Sound m { t with
    state := { t.state with ready := rest, order := t.state.order ++ [v] }
    pending := pending } := by
  have hinv := h.invariant hidle
  obtain ⟨hv, -, -⟩ := hinv.head_ready hready
  obtain ⟨honce, hedges⟩ := h.edges_emit hidle hready hpending
  have hstep := hinv.step_of_ready hready
  have horder := order_step (m := m) hready
  have htargets : (m.successors v).Perm (pending.map Prod.snd) := by
    refine ((hpending.map Prod.snd).trans (.of_eq ?_)).symm
    rw [List.map_map]
    exact List.map_id _
  refine ⟨(hinv.counts_successors hready).of_perm htargets, horder ▸ hstep.nodup, horder ▸ hstep.bounded,
    horder ▸ hstep.respects, ?_, honce, hedges, ?_, ?_⟩
  · rintro ⟨u, w⟩ hmem
    obtain ⟨w, hw, heq⟩ := List.mem_map.1 (hpending.mem_iff.1 hmem)
    cases heq
    exact hinv.successor_notMem hready ((mem_successors hv).1 hw)
  · have hpushed := h.pushed
    rw [hready] at hpushed
    rwa [List.append_assoc]
  · change t.state.order ++ [v] = (run m (t.state.order ++ [v]).length (Elimination.start m)).order
    rw [List.length_append, List.length_singleton, run_succ, ← h.state_eq hidle, horder]

end Emit

section Consume

variable {pending : List (Nat × Nat)} (h : Sound m t) (hpending : t.pending = (v, w) :: pending)
include h hpending

theorem Sound.edge : m.Edge v w := by
  refine ((h.edges v w).1 (List.mem_append_right _ ?_)).1
  rw [hpending]
  exact List.mem_cons_self

/-- The count of the vertex that an edge leads to is not zero. -/
theorem Sound.degree_pos : ∃ d, t.state.inDegree[w]? = some (d + 1) := by
  have hcounts := h.counts
  rw [hpending] at hcounts
  have hw := (h.edge hpending).2.1
  have hpos : 0 < t.state.inDegree.getD w 0 := hcounts.degree_pos hw
  have hlt : w < t.state.inDegree.length := by rwa [hcounts.length]
  rw [List.getD_eq_getElem _ _ hlt] at hpos
  refine ⟨t.state.inDegree[w] - 1, ?_⟩
  rw [List.getElem?_eq_getElem hlt, Nat.sub_add_cancel hpos]

theorem Sound.consume : Sound m {
    state := t.state.release w
    pending := pending
    consumed := t.consumed ++ [(v, w)]
    pushed := t.pushed ++ t.state.pushes w } := by
  obtain ⟨hfresh, hrest⟩ := List.forall_mem_cons.1 (hpending ▸ h.fresh)
  have hcounts := h.counts
  have hlist : t.consumed ++ [(v, w)] ++ pending = t.consumed ++ t.pending := by
    rw [hpending, List.append_assoc, List.singleton_append]
  rw [hpending, List.map_cons] at hcounts
  refine ⟨hcounts.release (h.edge hpending).2.1 hfresh, h.nodup, h.bounded, h.respects, hrest, hlist ▸ h.once,
    hlist ▸ h.edges, ?_, h.order⟩
  have hready := (perm_ready_release t.state w).append_left t.state.order
  rw [← List.append_assoc] at hready
  exact (h.pushed.append_right _).trans hready.symm

end Consume

/-- A move keeps what holds. -/
theorem Sound.next (h : Sound m t) (hnext : Next m t t') : Sound m t' := by
  cases hnext with
  | emit hidle hready hpending => exact h.emit hidle hready hpending
  | consume hpending => exact h.consume hpending

theorem Reachable.sound (h : Reachable m t) : Sound m t := by
  induction h with
  | refl => exact sound_start m
  | tail _ hnext ih => exact ih.next hnext

/-! ## Moments and steps -/

/-- The edges that are left can be gone through one after the other, to the end of the step. -/
theorem exists_idle {pending : List (Nat × Nat)} (h : Reachable m t) (hpending : t.pending = pending) :
    ∃ t', Reachable m t' ∧ t'.pending = [] ∧
      t'.state = (pending.map Prod.snd).foldl Elimination.release t.state := by
  induction pending generalizing t with
  | nil => exact ⟨t, h, hpending, rfl⟩
  | cons edge pending ih => exact ih (h.tail (.consume hpending)) rfl

/-- Any number of steps is made of moves. -/
theorem exists_reachable (m : AdjacencyMatrix) (steps : Nat) :
    ∃ t, Reachable m t ∧ t.pending = [] ∧ t.state = run m steps (Elimination.start m) := by
  induction steps with
  | zero => exact ⟨start m, .refl, rfl, rfl⟩
  | succ steps ih =>
    obtain ⟨t, ht, hidle, hstate⟩ := ih
    rw [run_succ, ← hstate]
    cases hready : t.state.ready with
    | nil => exact ⟨t, ht, hidle, (step_of_not_ready hready).symm⟩
    | cons v rest =>
      obtain ⟨t', ht', hidle', hstate'⟩ := exists_idle (ht.tail (.emit hidle hready (.refl _))) rfl
      refine ⟨t', ht', hidle', ?_⟩
      rw [hstate', step_of_ready hready, List.map_map]
      congr 1
      exact List.map_id _

theorem Sound.length_le (h : Sound m t) : t.state.order.length ≤ m.size := by
  rw [h.order]
  exact ((invariant_start m).run _).length_le

end Moment

/-- There is a first number of steps after which none is ready, and it is no greater than the size. -/
theorem exists_first_stop (m : AdjacencyMatrix) : ∃ steps ≤ m.size,
    (run m steps (start m)).ready = [] ∧ ∀ fewer < steps, (run m fewer (start m)).ready ≠ [] := by
  have hstop : ∃ steps, (run m steps (start m)).ready = [] := ⟨m.size, run_size_of_start m⟩
  exact ⟨Nat.find hstop, Nat.find_min' hstop (run_size_of_start m), Nat.find_spec hstop,
    fun fewer => Nat.find_min hstop⟩

/--
Whatever the graph, and in whatever order the edges of a vertex are gone through: at every moment of the
elimination the count that is lowered next is not zero, no vertex has become ready twice, no edge has been
gone through twice and no vertex has been emitted twice. After no more steps than there are vertices none
is ready, and between steps the moments are the states of the steps.
-/
theorem moments_safe (m : AdjacencyMatrix) :
    (∀ t, Moment.Reachable m t →
      (∀ v w pending, t.pending = (v, w) :: pending → ∃ d, t.state.inDegree[w]? = some (d + 1)) ∧
      t.pushed.Nodup ∧ t.pushed.Perm (t.state.order ++ t.state.ready) ∧
      t.consumed.Nodup ∧ (∀ v w, (v, w) ∈ t.consumed → m.Edge v w) ∧
      t.state.order.Nodup ∧ t.state.order.length ≤ m.size ∧
      (t.pending = [] → t.state = run m t.state.order.length (start m))) ∧
    (∀ steps, ∃ t, Moment.Reachable m t ∧ t.pending = [] ∧ t.state = run m steps (start m)) ∧
    ∃ steps ≤ m.size, (run m steps (start m)).ready = [] ∧
      ∀ fewer < steps, (run m fewer (start m)).ready ≠ [] := by
  refine ⟨fun t h => ?_, Moment.exists_reachable m, exists_first_stop m⟩
  have hsound := h.sound
  have hpushed : t.pushed.Nodup := hsound.pushed.nodup_iff.2 (hsound.counts.ready_nodup hsound.nodup)
  have hconsumed : t.consumed.Nodup := (List.nodup_append.1 hsound.once).1
  refine ⟨fun v w pending => hsound.degree_pos, hpushed, hsound.pushed, hconsumed, fun v w hmem => ?_,
    hsound.nodup, hsound.length_le, hsound.state_eq⟩
  exact ((hsound.edges v w).1 (List.mem_append_left _ hmem)).1

/-- A vertex with edges to two others. -/
def fork : AdjacencyMatrix := .tabulate 3 fun v w => v == 0 && w != 0

/-- The first vertex has been emitted, and the last edge that leaves it is gone through first. -/
def forkMoment : Moment where
  state := ⟨[0, 1, 1], [], [0]⟩
  pending := [(0, 2), (0, 1)]
  consumed := []
  pushed := [0]

theorem moments_safe_fork : Moment.Reachable fork forkMoment ∧ forkMoment.pending = [(0, 2), (0, 1)] ∧
    (∃ d, forkMoment.state.inDegree[2]? = some (d + 1)) ∧ forkMoment.pushed.Nodup ∧
    forkMoment.state.order.length ≤ fork.size := by
  have hstart : start fork = ⟨[0, 1, 1], [0], []⟩ := by decide
  have hperm : [(0, 2), (0, 1)].Perm ((fork.successors 0).map (Prod.mk 0)) := by decide
  have hemit : Moment.Next fork (Moment.start fork) forkMoment := by
    have hnext := Moment.Next.emit (m := fork) (t := Moment.start fork) rfl (congrArg ready hstart) hperm
    rw [Moment.start, hstart] at hnext
    exact hnext
  have hreachable : Moment.Reachable fork forkMoment := ReflTransGen.single hemit
  obtain ⟨hpos, hpushed, -, -, -, -, hlength, -⟩ := (moments_safe fork).1 forkMoment hreachable
  exact ⟨hreachable, rfl, hpos 0 2 [(0, 1)] rfl, hpushed, hlength⟩

end ModelBinding.Elimination
