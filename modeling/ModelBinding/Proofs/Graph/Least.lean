import ModelBinding.Proofs.Graph.Order

/-!
# The least order

A graph can have many orders in which every edge leads onward. The one that is given has at each place
the least vertex that can stand there, and so it comes before all others.
-/
namespace ModelBinding

open AdjacencyMatrix Relation

variable {m : AdjacencyMatrix} {s : Elimination} {order other : List Nat}

namespace AdjacencyMatrix

/-- An order in which each vertex is the least that can come after those before it. -/
def Greedy (m : AdjacencyMatrix) (order : List Nat) : Prop :=
  ∀ before v after, order = before ++ v :: after → ∀ w, m.Available before w → v ≤ w

theorem greedy_nil (m : AdjacencyMatrix) : m.Greedy [] := by
  intro before v after h
  exact absurd h.symm (by simp)

theorem Greedy.append (h : m.Greedy order) {v : Nat}
    (hleast : ∀ w, m.Available order w → v ≤ w) : m.Greedy (order ++ [v]) := by
  intro before u after heq
  rcases List.eq_nil_or_concat after with rfl | ⟨init, last, rfl⟩
  · obtain ⟨rfl, hv⟩ := List.append_inj' heq rfl
    obtain rfl := List.singleton_inj.1 hv
    exact hleast
  · rw [List.concat_eq_append, ← List.cons_append, ← List.append_assoc] at heq
    exact h before u init (List.append_inj' heq rfl).1

end AdjacencyMatrix

namespace Elimination

/-- A step emits the least vertex that can be emitted. -/
theorem Invariant.greedy_step (h : Invariant m s) (hgreedy : m.Greedy s.order) :
    m.Greedy (Elimination.step m s).order := by
  cases hready : s.ready with
  | nil =>
    rw [step_of_not_ready hready]
    exact hgreedy
  | cons v rest =>
    rw [order_step hready]
    exact hgreedy.append fun w hw => h.head_le hready hw

theorem Invariant.greedy_run (h : Invariant m s) (hgreedy : m.Greedy s.order) (steps : Nat) :
    m.Greedy (Elimination.run m steps s).order := by
  induction steps generalizing s with
  | zero => exact hgreedy
  | succ steps ih => exact ih h.step (h.greedy_step hgreedy)

end Elimination

namespace AdjacencyMatrix

theorem greedy_of_topologicalOrder (h : m.topologicalOrder = .ok order) : m.Greedy order := by
  obtain ⟨rfl, -⟩ := topologicalOrder_eq_ok.1 h
  exact (Elimination.invariant_start m).greedy_run m.greedy_nil m.size

/-- What comes next in an order of the graph could come next. -/
theorem Sorts.available (h : m.Sorts order) {before after : List Nat} {v : Nat}
    (heq : order = before ++ v :: after) : m.Available before v := by
  have hnodup : order.Nodup := h.perm.nodup_iff.2 List.nodup_range
  have hnotMem : v ∉ before := by
    rw [heq] at hnodup
    exact fun hmem => (List.nodup_append.1 hnodup).2.2 v hmem v List.mem_cons_self rfl
  refine ⟨?_, hnotMem, fun u hedge => ?_⟩
  · refine List.mem_range.1 (h.perm.mem_iff.1 ?_)
    rw [heq]
    exact List.mem_append_right before List.mem_cons_self
  · have hlt := h.edge u v hedge
    rw [heq, List.idxOf_append_of_notMem hnotMem, List.idxOf_cons_self, Nat.add_zero] at hlt
    by_contra hu
    rw [List.idxOf_append_of_notMem hu] at hlt
    omega

/-- Where an order first differs from a greedy one, it has a greater vertex. -/
theorem Greedy.eq_or_lex (h : m.Greedy order) (horder : m.Sorts order) (hother : m.Sorts other) :
    order = other ∨ List.Lex (· < ·) order other := by
  have hrest : ∀ rest before rest', order = before ++ rest → other = before ++ rest' →
      rest.length = rest'.length → rest = rest' ∨ List.Lex (· < ·) rest rest' := by
    intro rest
    induction rest with
    | nil =>
      intro before rest' _ _ hlength
      exact .inl (List.length_eq_zero_iff.1 hlength.symm).symm
    | cons v rest ih =>
      intro before rest' heq heq' hlength
      cases rest' with
      | nil => cases hlength
      | cons w rest' =>
        rcases Nat.lt_or_eq_of_le (h before v rest heq w (hother.available heq')) with hlt | rfl
        · exact .inr (.rel hlt)
        · have hnext := ih (before ++ [v]) rest' (by simp [heq]) (by simp [heq'])
            (Nat.succ.inj hlength)
          exact hnext.imp (congrArg (v :: ·)) .cons
  exact hrest order [] other rfl rfl (horder.perm.trans hother.perm.symm).length_eq

/--
The order that is given is the least of those that hold each vertex once and the row of an edge before
its column, and where there is such an order the least of them is given.
-/
theorem topologicalOrder_eq_least (m : AdjacencyMatrix) (order : List Nat) :
    m.topologicalOrder = .ok order ↔
      (order.Perm (List.range m.size) ∧ ∀ r c, m.Edge r c → order.idxOf r < order.idxOf c) ∧
      ∀ other : List Nat, other.Perm (List.range m.size) →
        (∀ r c, m.Edge r c → other.idxOf r < other.idxOf c) →
        order = other ∨ List.Lex (· < ·) order other := by
  constructor
  · intro h
    have hsorts := sorts_of_topologicalOrder h
    exact ⟨⟨hsorts.perm, hsorts.edge⟩, fun other hperm hedge =>
      (greedy_of_topologicalOrder h).eq_or_lex hsorts ⟨hperm, hedge⟩⟩
  · rintro ⟨⟨hperm, hedge⟩, hleast⟩
    have hsorts : m.Sorts order := ⟨hperm, hedge⟩
    obtain ⟨given, hgiven⟩ := exists_topologicalOrder hsorts.acyclic
    have hsorts' := sorts_of_topologicalOrder hgiven
    rcases (greedy_of_topologicalOrder hgiven).eq_or_lex hsorts' hsorts with rfl | hlt
    · exact hgiven
    · rcases hleast given hsorts'.perm hsorts'.edge with rfl | hlt'
      · exact hgiven
      · exact absurd hlt' (List.lex_asymm (fun h => Nat.lt_asymm h) hlt)

end AdjacencyMatrix

end ModelBinding
