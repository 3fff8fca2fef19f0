import ModelBinding.Proofs.Graph.Elimination

/-!
# Components

Vertices that lead to each other make up a component. A cycle does not leave its component, so the vertices
on cycles can be told from the components: they are those of a component with more than one vertex, and
those with an edge to themselves. How the components and their vertices are listed has no say in it.
-/
namespace ModelBinding.AdjacencyMatrix

open Elimination Relation

variable {m : AdjacencyMatrix} {u v w : Nat} {components : List (List Nat)} {component : List Nat}

theorem lt_of_path (h : m.Path v w) : v < m.size ∧ w < m.size := by
  induction h with
  | single hedge => exact ⟨hedge.1, hedge.2.1⟩
  | tail _ hedge ih => exact ⟨ih.1, hedge.2.1⟩

/-- A vertex on a cycle has an edge to itself, or there is another one that it leads to and back. -/
theorem path_self_iff : m.Path v v ↔ m.Edge v v ∨ ∃ w, w ≠ v ∧ m.Path v w ∧ m.Path w v := by
  constructor
  · intro h
    cases h with
    | single hedge => exact .inl hedge
    | @tail w _ hpath hedge =>
      by_cases hw : w = v
      · subst hw
        exact .inl hedge
      · exact .inr ⟨w, hw, hpath, .single hedge⟩
  · rintro (hedge | ⟨w, -, hforth, hback⟩)
    · exact .single hedge
    · exact hforth.trans hback

/-- Vertices of one component: the same, or such that each leads to the other. -/
def Together (m : AdjacencyMatrix) (v w : Nat) : Prop := v = w ∨ (m.Path v w ∧ m.Path w v)

theorem Together.symm (h : m.Together v w) : m.Together w v := by
  rcases h with rfl | ⟨hforth, hback⟩
  · exact .inl rfl
  · exact .inr ⟨hback, hforth⟩

theorem Together.trans (h : m.Together u v) (h' : m.Together v w) : m.Together u w := by
  rcases h with rfl | ⟨hforth, hback⟩
  · exact h'
  · rcases h' with rfl | ⟨hforth', hback'⟩
    · exact .inr ⟨hforth, hback⟩
    · exact .inr ⟨hforth.trans hforth', hback'.trans hback⟩

theorem Together.congr_left (h : m.Together u v) : m.Together u w ↔ m.Together v w :=
  ⟨h.symm.trans, h.trans⟩

theorem Together.congr_right (h : m.Together v w) : m.Together u v ↔ m.Together u w :=
  ⟨fun h' => h'.trans h, fun h' => h'.trans h.symm⟩

theorem Together.lt (h : m.Together v w) (hv : v < m.size) : w < m.size := by
  rcases h with rfl | ⟨hforth, -⟩
  · exact hv
  · exact (lt_of_path hforth).2

/-- Together with another vertex, a vertex is on a cycle. -/
theorem Together.path_self (h : m.Together v w) (hne : v ≠ w) : m.Path v v := by
  obtain ⟨hforth, hback⟩ := h.resolve_left hne
  exact hforth.trans hback

/-- The vertices of a graph by components, in any order. -/
structure Components (m : AdjacencyMatrix) (components : List (List Nat)) : Prop where
  perm : components.flatten.Perm (List.range m.size)
  together : ∀ component ∈ components, ∀ v ∈ component, ∀ w, w ∈ component ↔ m.Together v w

/-- There is a cycle in a component of more than one vertex, or of one with an edge to itself. -/
def holdsCycle (m : AdjacencyMatrix) (component : List Nat) : Bool :=
  component.length > 1 || component.head?.any fun v => m.hasEdge v v

/-- The vertices of the components in which there is a cycle, in increasing order. -/
def cycleMembersOf (m : AdjacencyMatrix) (components : List (List Nat)) : List Nat :=
  (components.filter m.holdsCycle).flatten.foldr insertReady []

/-! ## Every graph has components -/

open Classical in
/-- Any vertices are split by taking all that go with the first, and then splitting the others. -/
theorem exists_split (m : AdjacencyMatrix) (vertices : List Nat) : ∃ components : List (List Nat),
    components.flatten.Perm vertices ∧ ∀ component ∈ components, ∀ v ∈ component, ∀ w,
      w ∈ component ↔ w ∈ vertices ∧ m.Together v w := by
  induction hlength : vertices.length using Nat.strong_induction_on generalizing vertices with
  | _ n ih =>
    cases hvertices : vertices with
    | nil => exact ⟨[], .nil, fun _ h => absurd h List.not_mem_nil⟩
    | cons first rest =>
      rw [← hvertices]
      have hmem : first ∈ vertices := hvertices ▸ List.mem_cons_self
      have hfewer : (vertices.filter fun w => !decide (m.Together first w)).length < n := by
        rw [← hlength, List.length_filter_lt_length_iff_exists]
        exact ⟨first, hmem, by simp [Together]⟩
      obtain ⟨others, hperm, hothers⟩ := ih _ hfewer _ rfl
      refine ⟨vertices.filter (m.Together first) :: others, ?_, ?_⟩
      · rw [List.flatten_cons]
        exact (hperm.append_left _).trans (List.filter_append_perm _ vertices)
      · intro component hcomponent v hv w
        rcases List.mem_cons.1 hcomponent with rfl | hcomponent
        · obtain ⟨-, hfirst⟩ := List.mem_filter.1 hv
          rw [List.mem_filter, decide_eq_true_iff, (of_decide_eq_true hfirst).congr_left]
        · have hapart := (List.mem_filter.1 ((hothers component hcomponent v hv v).1 hv).1).2
          rw [hothers component hcomponent v hv w, List.mem_filter, and_assoc]
          refine and_congr_right fun _ => and_iff_right_of_imp fun htogether => ?_
          simpa [Together.congr_right htogether] using hapart

theorem exists_components (m : AdjacencyMatrix) : ∃ components, m.Components components := by
  obtain ⟨components, hperm, htogether⟩ := m.exists_split (List.range m.size)
  refine ⟨components, hperm, fun component hcomponent v hv w => ?_⟩
  have hlt := ((htogether component hcomponent v hv v).1 hv).1
  rw [htogether component hcomponent v hv w]
  exact and_iff_right_of_imp fun h => List.mem_range.2 (h.lt (List.mem_range.1 hlt))

/-! ## What the components tell -/

theorem Components.lt (h : m.Components components) (hcomponent : component ∈ components)
    (hv : v ∈ component) : v < m.size :=
  List.mem_range.1 (h.perm.mem_iff.1 (List.mem_flatten.2 ⟨component, hcomponent, hv⟩))

theorem Components.nodup (h : m.Components components) : components.flatten.Nodup :=
  h.perm.nodup_iff.2 List.nodup_range

/-- A component holds a cycle exactly if each of its vertices is on one. -/
theorem Components.holdsCycle_iff (h : m.Components components) (hcomponent : component ∈ components)
    (hv : v ∈ component) : m.holdsCycle component = true ↔ m.Path v v := by
  have htogether := h.together component hcomponent
  have hnodup := (List.nodup_flatten.1 h.nodup).1 component hcomponent
  cases component with
  | nil => cases hv
  | cons first rest =>
    have hself : m.hasEdge first first = true ↔ m.Edge first first := by
      have hlt := h.lt hcomponent List.mem_cons_self
      rw [Edge, and_iff_right hlt, and_iff_right hlt]
    cases rest with
    | nil =>
      obtain rfl := List.mem_singleton.1 hv
      have halone : ¬ ∃ w, w ≠ v ∧ m.Path v w ∧ m.Path w v := by
        rintro ⟨w, hne, hpaths⟩
        exact hne (List.mem_singleton.1 ((htogether v hv w).2 (.inr hpaths)))
      rw [path_self_iff, or_iff_left halone, ← hself]
      simp [holdsCycle]
    | cons second rest =>
      refine iff_of_true (by simp [holdsCycle]) ?_
      have hne : first ≠ second := fun heq => (List.nodup_cons.1 hnodup).1 (heq ▸ List.mem_cons_self)
      have hother : ∃ w ∈ first :: second :: rest, v ≠ w := by
        by_cases hfirst : v = first
        · exact ⟨second, by simp, hfirst ▸ hne⟩
        · exact ⟨first, by simp, hfirst⟩
      obtain ⟨w, hw, hdistinct⟩ := hother
      exact ((htogether v hv w).1 hw).path_self hdistinct

theorem mem_foldr_insertReady {vertices : List Nat} : v ∈ vertices.foldr insertReady [] ↔ v ∈ vertices := by
  induction vertices with
  | nil => exact Iff.rfl
  | cons w vertices ih => rw [List.foldr_cons, mem_insertReady, ih, List.mem_cons]

theorem pairwise_foldr_insertReady {vertices : List Nat} (h : vertices.Nodup) :
    (vertices.foldr insertReady []).Pairwise (· < ·) := by
  induction vertices with
  | nil => exact .nil
  | cons w vertices ih =>
    obtain ⟨hnotMem, hnodup⟩ := List.nodup_cons.1 h
    exact pairwise_insertReady (ih hnodup) (mt mem_foldr_insertReady.1 hnotMem)

theorem Components.mem_cycleMembersOf (h : m.Components components) :
    v ∈ m.cycleMembersOf components ↔ m.Path v v := by
  rw [cycleMembersOf, mem_foldr_insertReady, List.mem_flatten]
  constructor
  · rintro ⟨component, hmem, hv⟩
    obtain ⟨hcomponent, hcycle⟩ := List.mem_filter.1 hmem
    exact (h.holdsCycle_iff hcomponent hv).1 hcycle
  · intro hpath
    have hrange := List.mem_range.2 (lt_of_path hpath).1
    obtain ⟨component, hcomponent, hv⟩ := List.mem_flatten.1 (h.perm.mem_iff.2 hrange)
    exact ⟨component, List.mem_filter.2 ⟨hcomponent, (h.holdsCycle_iff hcomponent hv).2 hpath⟩, hv⟩

theorem Components.pairwise_cycleMembersOf (h : m.Components components) :
    (m.cycleMembersOf components).Pairwise (· < ·) := by
  obtain ⟨hnodup, hdisjoint⟩ := List.nodup_flatten.1 h.nodup
  refine pairwise_foldr_insertReady (List.nodup_flatten.2 ⟨fun component hmem => ?_, hdisjoint.filter _⟩)
  exact hnodup component (List.mem_filter.1 hmem).1

theorem pairwise_cycleMembers (m : AdjacencyMatrix) : m.cycleMembers.Pairwise (· < ·) :=
  List.Pairwise.filter _ List.pairwise_lt_range

/-- The only list of the vertices on cycles in increasing order. -/
theorem eq_cycleMembers {members : List Nat} (hsorted : members.Pairwise (· < ·))
    (hmem : ∀ v, v ∈ members ↔ m.Path v v) : members = m.cycleMembers := by
  have hnodup : ∀ vertices : List Nat, vertices.Pairwise (· < ·) → vertices.Nodup :=
    fun _ h => h.imp fun hlt => Nat.ne_of_lt hlt
  have hperm : members.Perm m.cycleMembers := by
    refine (List.perm_ext_iff_of_nodup (hnodup _ hsorted) (hnodup _ m.pairwise_cycleMembers)).2 ?_
    exact fun v => (hmem v).trans mem_cycleMembers.symm
  exact hperm.eq_of_pairwise (fun v w _ _ hlt hgt => absurd hlt (Nat.lt_asymm hgt)) hsorted
    m.pairwise_cycleMembers

/-- From its components, however they are listed, the members of the cycles of a graph are told. -/
theorem Components.cycleMembersOf_eq (h : m.Components components) :
    m.cycleMembersOf components = m.cycleMembers :=
  eq_cycleMembers h.pairwise_cycleMembersOf fun _ => h.mem_cycleMembersOf

end ModelBinding.AdjacencyMatrix
