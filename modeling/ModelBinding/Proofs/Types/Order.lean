import ModelBinding.Proofs.Types.Dependency

/-!
# The order of types

A table is put in order exactly if every type that is held is declared and none embeds itself,
directly or through others. Nothing but the members that hold types by value has a say in it.
-/
namespace ModelBinding.TypeTable

open AdjacencyMatrix Relation

variable {table : TypeTable}

/-! ## Sorting -/

/-- What a table makes of the order of its numbers. -/
def placed (table : TypeTable) : Except SortError (List Nat) → Except Error (List PlacedType)
  | .ok order => .ok (order.filterMap table.get?)
  | .error (.cycle members) => .error (.circularTypes (members.filterMap (table.identities[·]?)))
  | .error other => .error (.sort other)

theorem dependencyOrder_eq (table : TypeTable) : table.dependencyOrder =
    table.dependencies >>= fun edges =>
      table.placed (ofEdges table.length edges).topologicalOrder := by
  unfold dependencyOrder
  congr 1
  funext edges
  cases (ofEdges table.length edges).topologicalOrder with
  | ok order => rfl
  | error e =>
    cases e with
    | cycle members =>
      dsimp only
      rw [placed, List.map_filterMap]
      simp only [map_identity_get?]
      rfl
    | notSquare rows cols => rfl

theorem dependencyOrder_of_edges {edges : List (Nat × Nat)} (h : table.dependencies = .ok edges) :
    table.dependencyOrder = table.placed (ofEdges table.length edges).topologicalOrder := by
  rw [dependencyOrder_eq, h]
  rfl

/-- Looking up numbers of the table loses none of them. -/
theorem map_id_filterMap_get? {order : List Nat} (h : ∀ id ∈ order, id < table.length) :
    (order.filterMap table.get?).map PlacedType.id = order := by
  rw [List.map_filterMap]
  simp only [map_id_get?]
  calc order.filterMap (fun id => table.identities[id]?.map fun _ => id) = order.filterMap some := by
        refine List.filterMap_congr fun id hid => ?_
        have hlt : id < table.identities.length := by
          rw [identities, List.length_map]
          exact h id hid
        rw [List.getElem?_eq_getElem hlt]
        rfl
    _ = order := List.filterMap_some

section Sorting

variable {edges : List (Nat × Nat)} (hedges : table.dependencies = .ok edges)
include hedges

theorem size_ofEdges_dependencies : (ofEdges table.length edges).size = table.length := by
  refine (edge_ofEdges fun edge hedge => ?_).1
  exact (((dependencies_eq_ok hedges).2 edge.1 edge.2).1 hedge).lt

theorem edge_dependencies {u v : Nat} :
    (ofEdges table.length edges).Edge u v ↔ table.Embeds v u := by
  rw [← (dependencies_eq_ok hedges).2 u v]
  refine (edge_ofEdges fun edge hedge => ?_).2 u v
  exact (((dependencies_eq_ok hedges).2 edge.1 edge.2).1 hedge).lt

/-- A path among the numbers is a chain of embeddings. -/
theorem path_dependencies {u v : Nat} :
    (ofEdges table.length edges).Path u v ↔ TransGen table.Embeds v u := by
  have hedge : (ofEdges table.length edges).Edge = Function.swap table.Embeds := by
    funext u v
    exact propext (edge_dependencies hedges)
  unfold AdjacencyMatrix.Path
  rw [hedge, transGen_swap]

end Sorting

/-- Members that can be followed give edges. -/
theorem exists_dependencies (h : ¬ table.Dangles) :
    ∃ edges, table.dependencies = .ok edges := by
  cases hedges : table.dependencies with
  | ok edges => exact ⟨edges, rfl⟩
  | error e =>
    obtain ⟨owner, field, target, hfirst, -⟩ := dependencies_eq_error hedges
    exact absurd hfirst.dangles h

/-- The types that embed themselves are reported, in order of declaration. -/
theorem dependencyOrder_of_cycle (hdangles : ¬ table.Dangles) {id : Nat}
    (h : TransGen table.Embeds id id) : ∃ names,
      table.dependencyOrder = .error (.circularTypes names) ∧ names.Sublist table.identities ∧
      ∀ id name, table.Declares id name → (name ∈ names ↔ TransGen table.Embeds id id) := by
  obtain ⟨edges, hedges⟩ := exists_dependencies hdangles
  have hsort := topologicalOrder_of_cycle ((path_dependencies hedges).2 h)
  have hsize := size_ofEdges_dependencies hedges
  refine ⟨(ofEdges table.length edges).cycleMembers.filterMap (table.identities[·]?), ?_, ?_, ?_⟩
  · rw [dependencyOrder_of_edges hedges, hsort]
    rfl
  · have hmembers : (ofEdges table.length edges).cycleMembers.Sublist
        (List.range table.identities.length) := by
      have hlength : table.identities.length = (ofEdges table.length edges).size := by
        rw [hsize, identities, List.length_map, length]
      rw [hlength]
      exact List.filter_sublist
    have hnames := hmembers.filterMap (table.identities[·]?)
    rwa [filterMap_getElem?_range] at hnames
  · intro id name hdeclares
    rw [List.mem_filterMap, ← path_dependencies hedges, ← mem_cycleMembers]
    constructor
    · rintro ⟨other, hother, hname⟩
      rw [hdeclares.unique hname]
      exact hother
    · exact fun hid => ⟨id, hid, hdeclares⟩

/-- Without a cycle all types are ordered, each after those that it embeds. -/
theorem dependencyOrder_of_acyclic (hdangles : ¬ table.Dangles)
    (h : ∀ id, ¬ TransGen table.Embeds id id) : ∃ order, table.dependencyOrder = .ok order ∧
      order.Perm table.types ∧ ∀ a b, table.Embeds b a →
        (order.map PlacedType.id).idxOf a < (order.map PlacedType.id).idxOf b := by
  obtain ⟨edges, hedges⟩ := exists_dependencies hdangles
  have hsize := size_ofEdges_dependencies hedges
  have hacyclic : (ofEdges table.length edges).Acyclic :=
    fun id hpath => h id ((path_dependencies hedges).1 hpath)
  obtain ⟨order, hsort⟩ := exists_topologicalOrder hacyclic
  obtain ⟨hperm, hedge⟩ := sorts_of_topologicalOrder hsort
  rw [hsize] at hperm
  have hids : (order.filterMap table.get?).map PlacedType.id = order :=
    map_id_filterMap_get? fun id hid => List.mem_range.1 (hperm.mem_iff.1 hid)
  refine ⟨order.filterMap table.get?, ?_, ?_, fun a b hembeds => ?_⟩
  · rw [dependencyOrder_of_edges hedges, hsort]
    rfl
  · rw [← table.filterMap_get?_range]
    exact hperm.filterMap _
  · rw [hids]
    exact hedge a b ((edge_dependencies hedges).2 hembeds)

theorem dependencyOrder_of_dangles (h : table.Dangles) :
    ∃ owner field target, table.FirstDangling owner field target ∧
      table.dependencyOrder = .error (.unresolvedReference owner.name field.name target) := by
  cases hedges : table.dependencies with
  | ok edges => exact absurd h (dependencies_eq_ok hedges).1
  | error e =>
    obtain ⟨owner, field, target, hfirst, rfl⟩ := dependencies_eq_error hedges
    refine ⟨owner, field, target, hfirst, ?_⟩
    rw [dependencyOrder_eq, hedges]
    rfl

/-- Types that have an order hold only types that are declared. -/
theorem not_dangles_of_order {order : List PlacedType} (h : table.dependencyOrder = .ok order) :
    ¬ table.Dangles := by
  intro hdangles
  obtain ⟨_, _, _, -, herror⟩ := dependencyOrder_of_dangles hdangles
  rw [h] at herror
  cases herror

/-- A table is always square, so sorting it has no error of its own. -/
theorem dependencyOrder_ne_sort (e : SortError) :
    table.dependencyOrder ≠ .error (.sort e) := by
  intro h
  by_cases hdangles : table.Dangles
  · obtain ⟨_, _, _, -, herror⟩ := dependencyOrder_of_dangles hdangles
    rw [h] at herror
    cases herror
  · by_cases hcycle : ∃ id, TransGen table.Embeds id id
    · obtain ⟨id, hid⟩ := hcycle
      obtain ⟨_, herror, -⟩ := dependencyOrder_of_cycle hdangles hid
      rw [h] at herror
      cases herror
    · obtain ⟨_, hok, -⟩ := dependencyOrder_of_acyclic hdangles (not_exists.1 hcycle)
      rw [h] at hok
      cases hok

/-! ## What has no say -/

/-- The members of a definition that hold a type by value, each with the name of that type. -/
def held (definition : TypeDefinition) : List (String × String) :=
  definition.fields.filterMap fun field => field.heldType?.map (field.name, ·)

/-- What a definition says about the order: how it is called and what it holds. -/
def outline (definition : TypeDefinition) : String × Location × List (String × String) :=
  (definition.name, definition.location, held definition)

/-- Follow a member that holds a type. -/
def follow (table : TypeTable) (owner : String) (member : String × String) : Except Error Nat :=
  match table.resolve? member.2 with
  | some id => .ok id
  | none => .error (.unresolvedReference owner member.1 member.2)

/-- The edges to a type, from its outline and its number. -/
def edgesOf (table : TypeTable) (entry : (String × Location × List (String × String)) × Nat) :
    Except Error (List (Nat × Nat)) :=
  (entry.1.2.2.mapM (table.follow entry.1.1)).map fun ids => ids.map (·, entry.2)

theorem mapM_heldBy (table : TypeTable) (owner : PlacedType) (fields : List Field) :
    (fields.mapM (table.heldBy owner)).map (·.filterMap id) =
      (fields.filterMap fun field => field.heldType?.map (field.name, ·)).mapM
        (table.follow owner.name) := by
  induction fields with
  | nil => rfl
  | cons field fields ih =>
    rw [List.mapM_cons, heldBy]
    cases hheld : field.heldType? with
    | none =>
      rw [List.filterMap_cons_none (by rw [hheld]; rfl), ← ih]
      cases fields.mapM (table.heldBy owner) with
      | error e => rfl
      | ok held => rfl
    | some target =>
      rw [List.filterMap_cons_some (by rw [hheld]; rfl), List.mapM_cons, ← ih, follow]
      dsimp only
      cases table.resolve? target with
      | none => rfl
      | some id =>
        cases fields.mapM (table.heldBy owner) with
        | error e => rfl
        | ok held => rfl

theorem edgesTo_eq (table : TypeTable) (owner : PlacedType) :
    table.edgesTo owner = table.edgesOf (outline owner.definition, owner.id) := by
  have hheld : (held owner.definition).mapM (table.follow owner.name) =
      (owner.definition.fields.mapM (table.heldBy owner)).map (·.filterMap id) :=
    (table.mapM_heldBy owner owner.definition.fields).symm
  change _ = ((held owner.definition).mapM (table.follow owner.name)).map
    fun ids => ids.map (·, owner.id)
  rw [hheld]
  unfold edgesTo
  cases owner.definition.fields.mapM (table.heldBy owner) with
  | error e => rfl
  | ok held => rfl

theorem dependencies_eq_outline (table : TypeTable) : table.dependencies =
    ((table.definitions.map outline).zipIdx.mapM table.edgesOf).map List.flatten := by
  rw [dependencies_eq, types, List.zipIdx_map, List.mapM_map, List.mapM_map]
  have hedges : (table.edgesTo ∘ fun entry : TypeDefinition × Nat => ⟨entry.2, entry.1⟩) =
      table.edgesOf ∘ Prod.map outline id := by
    funext entry
    exact table.edgesTo_eq ⟨entry.2, entry.1⟩
  exact congrArg (fun f => (table.definitions.zipIdx.mapM f).map List.flatten) hedges

/-- The numbers in what a table makes of an order are told from the identities. -/
theorem map_id_placed (table : TypeTable) (result : Except SortError (List Nat)) :
    (table.placed result).map (·.map PlacedType.id) = match result with
      | .ok order => .ok (order.filterMap fun id => table.identities[id]?.map fun _ => id)
      | .error (.cycle members) => .error (.circularTypes (members.filterMap (table.identities[·]?)))
      | .error e => .error (.sort e) := by
  cases result with
  | ok order =>
    rw [placed, Except.map, List.map_filterMap]
    simp only [map_id_get?]
  | error e => cases e <;> rfl

section Outline

variable {other : TypeTable} (hclass : other.classIdentifier = table.classIdentifier)
  (houtline : other.definitions.map outline = table.definitions.map outline)
include hclass houtline

theorem identities_of_outline : other.identities = table.identities := by
  have hidentities : ∀ t : TypeTable, t.identities = (t.definitions.map outline).map
      fun entry => qualify t.classIdentifier entry.1 entry.2.1 := by
    intro t
    rw [List.map_map]
    rfl
  rw [hidentities, hidentities, houtline, hclass]

theorem edgesOf_of_outline : other.edgesOf = table.edgesOf := by
  have hidOf : ∀ t : TypeTable, t.idOf? = fun identity => t.identities.findIdx? (· = identity) := by
    intro t
    funext identity
    rw [identities, List.findIdx?_map]
    rfl
  have hresolve : other.resolve? = table.resolve? := by
    funext name
    unfold resolve?
    rw [hidOf, hidOf, identities_of_outline hclass houtline, hclass]
  have hfollow : other.follow = table.follow := by
    funext owner member
    unfold follow
    rw [hresolve]
  unfold edgesOf
  rw [hfollow]

/-- Tables with one outline are put in one order, or in none for the same reason. -/
theorem dependencyOrder_of_outline : other.dependencyOrder.map (·.map PlacedType.id) =
    table.dependencyOrder.map (·.map PlacedType.id) := by
  have hidentities := identities_of_outline hclass houtline
  have hlength : other.length = table.length := by
    have hlengths := congrArg List.length houtline
    rwa [List.length_map, List.length_map] at hlengths
  have hdependencies : other.dependencies = table.dependencies := by
    rw [dependencies_eq_outline, dependencies_eq_outline, houtline,
      edgesOf_of_outline hclass houtline]
  rw [dependencyOrder_eq, dependencyOrder_eq, hdependencies]
  cases table.dependencies with
  | error e => rfl
  | ok edges =>
    change (other.placed _).map _ = (table.placed _).map _
    rw [map_id_placed, map_id_placed, hidentities, hlength]

end Outline

/--
The order of the types of a table. A type that is held and not declared is reported, the first in
order of declaration; else the types that embed themselves are, in order of declaration and by their
identities; else all types are ordered, each after those that it embeds. Members that hold no type
by value have no say in this.
-/
theorem dependencyOrder_correct {definitions : List TypeDefinition} {classIdentifier : String}
    (h : make definitions classIdentifier = .ok table) :
    (table.Dangles → ∃ owner field target, table.FirstDangling owner field target ∧
      table.dependencyOrder = .error (.unresolvedReference owner.name field.name target)) ∧
    (¬ table.Dangles → (∃ id, TransGen table.Embeds id id) → ∃ names,
      table.dependencyOrder = .error (.circularTypes names) ∧ names.Sublist table.identities ∧
      ∀ id name, table.Declares id name → (name ∈ names ↔ TransGen table.Embeds id id)) ∧
    (¬ table.Dangles → (∀ id, ¬ TransGen table.Embeds id id) → ∃ order,
      table.dependencyOrder = .ok order ∧ order.Perm table.types ∧ ∀ a b, table.Embeds b a →
        (order.map PlacedType.id).idxOf a < (order.map PlacedType.id).idxOf b) ∧
    (∀ otherDefinitions other, make otherDefinitions classIdentifier = .ok other →
      otherDefinitions.map outline = definitions.map outline →
      other.dependencyOrder.map (·.map PlacedType.id) =
        table.dependencyOrder.map (·.map PlacedType.id)) ∧
    ∀ e, table.dependencyOrder ≠ .error (.sort e) := by
  obtain ⟨_, rfl⟩ := make_eq_ok.1 h
  refine ⟨dependencyOrder_of_dangles, fun hdangles hcycle => ?_,
    dependencyOrder_of_acyclic, fun otherDefinitions other hother houtline => ?_,
    dependencyOrder_ne_sort⟩
  · obtain ⟨id, hid⟩ := hcycle
    exact dependencyOrder_of_cycle hdangles hid
  · obtain ⟨_, rfl⟩ := make_eq_ok.1 hother
    exact dependencyOrder_of_outline rfl houtline

/-- Two types that embed each other, the second declared in the model class, and one that embeds the
first. -/
def loop : TypeTable where
  classIdentifier := "C"
  definitions := [
    ⟨"A", "", .root, .fields [⟨"b", "", .struct, none, some "B", by decide⟩]⟩,
    ⟨"B", "", .modelClass, .fields [⟨"a", "", .structArray, some [2], some "A", by decide⟩]⟩,
    ⟨"D", "", .root, .fields [⟨"a", "", .struct, none, some "A", by decide⟩,
      ⟨"v", "", .struct, none, some "void", by decide⟩]⟩]
  distinct := by decide

theorem loop_dependencyOrder : make loop.definitions "C" = .ok loop ∧ ∃ names,
    loop.dependencyOrder = .error (.circularTypes names) ∧ names.Sublist loop.identities ∧
    ∀ id name, loop.Declares id name → (name ∈ names ↔ TransGen loop.Embeds id id) := by
  have hmake : make loop.definitions "C" = .ok loop := rfl
  have hedges : loop.dependencies = .ok [(1, 0), (0, 1), (0, 2)] := rfl
  obtain ⟨hdangles, hembeds⟩ := dependencies_eq_ok hedges
  have hforth : loop.Embeds 0 1 := (hembeds 1 0).1 (by decide)
  have hback : loop.Embeds 1 0 := (hembeds 0 1).1 (by decide)
  exact ⟨hmake, (dependencyOrder_correct hmake).2.1 hdangles ⟨0, .tail (.single hforth) hback⟩⟩

end ModelBinding.TypeTable
