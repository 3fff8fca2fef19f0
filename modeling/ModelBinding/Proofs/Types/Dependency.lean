import ModelBinding.Proofs.Graph.Edges
import ModelBinding.Proofs.Graph.Order
import ModelBinding.Proofs.Types.Resolution

/-!
# Dependencies

A type embeds the types that its members hold by value. The edges of a table are exactly what is
embedded, unless a member holds a type that is not declared: then the first of these is reported.
-/
namespace ModelBinding

open AdjacencyMatrix Relation

variable {table : TypeTable}

theorem filterMap_getElem?_range {α : Type} (as : List α) :
    (List.range as.length).filterMap (as[·]?) = as := by
  have hmap : (List.range as.length).map (as[·]?) = as.map some := by
    apply List.ext_getElem?
    intro i
    simp only [List.getElem?_map]
    by_cases hi : i < as.length
    · rw [List.getElem?_range hi, List.getElem?_eq_getElem hi]
      simp
    · have hnone : as[i]? = none := List.getElem?_eq_none (Nat.le_of_not_lt hi)
      rw [hnone, List.getElem?_eq_none (by simpa using hi)]
      rfl
  calc (List.range as.length).filterMap (as[·]?) =
        ((List.range as.length).map (as[·]?)).filterMap id := by
        rw [List.filterMap_map]
        rfl
    _ = (as.map some).filterMap id := by rw [hmap]
    _ = as := by
        rw [List.filterMap_map]
        exact List.filterMap_some

theorem FieldMode.isStruct_iff {mode : FieldMode} :
    mode.isStruct = true ↔ mode = .struct ∨ mode = .structArray := by
  cases mode <;> simp [isStruct]

namespace Field

/-- A field whose value is made up of values of a declared type. -/
def Holds (field : Field) (target : String) : Prop :=
  (field.mode = .struct ∨ field.mode = .structArray) ∧ field.typeName = some target ∧ target ≠ "void"

theorem heldType?_eq_some {field : Field} {target : String} :
    field.heldType? = some target ↔ field.Holds target := by
  unfold heldType? Holds
  rw [← FieldMode.isStruct_iff]
  by_cases hstruct : field.mode.isStruct = true
  · rw [if_pos hstruct, and_iff_right hstruct, Option.filter_eq_some_iff, decide_eq_true_eq]
  · rw [if_neg hstruct]
    exact iff_of_false (fun h => nomatch h) fun h => hstruct h.1

/-- A member holds one type at most. -/
theorem holds_iff_of_heldType? {field : Field} {target : String} (h : field.heldType? = some target)
    (other : String) : field.Holds other ↔ other = target := by
  rw [← heldType?_eq_some, h, Option.some.injEq, eq_comm]

theorem heldType?_eq_none {field : Field} :
    field.heldType? = none ↔ ∀ target, ¬ field.Holds target := by
  rw [Option.eq_none_iff_forall_ne_some]
  exact forall_congr' fun target => not_congr heldType?_eq_some

/-- A member that holds a struct says which. -/
theorem holds_of_isStruct {field : Field} (hstruct : field.mode.isStruct = true) :
    ∃ target, field.typeName = some target ∧ (target = "void" ∨ field.Holds target) := by
  have hmode := FieldMode.isStruct_iff.1 hstruct
  have hnamed : field.typeName.isSome = true := by
    rw [field.fits.type_iff]
    rcases hmode with hmode | hmode
    · rw [hmode]; rfl
    · rw [hmode]; rfl
  obtain ⟨target, htarget⟩ := Option.isSome_iff_exists.1 hnamed
  exact ⟨target, htarget, or_iff_not_imp_left.2 fun hvoid => ⟨hmode, htarget, hvoid⟩⟩

end Field

namespace TypeTable

/-- The type with number `b` has a member that holds the type with number `a`. -/
def Embeds (table : TypeTable) (b a : Nat) : Prop :=
  ∃ owner field target, table.definitions[b]? = some owner ∧ field ∈ owner.fields ∧
    field.Holds target ∧ table.Resolves target a

/-- A member that holds a type which is not declared. -/
def Dangling (table : TypeTable) (field : Field) (target : String) : Prop :=
  field.Holds target ∧ ∀ id, ¬ table.Resolves target id

/-- Some member holds a type which is not declared. -/
def Dangles (table : TypeTable) : Prop :=
  ∃ owner ∈ table.definitions, ∃ field ∈ owner.fields, ∃ target, table.Dangling field target

/-- The first such member, in order of declaration. -/
def FirstDangling (table : TypeTable) (owner : TypeDefinition) (field : Field) (target : String) :
    Prop :=
  ∃ before after earlier later, table.definitions = before ++ owner :: after ∧
    owner.fields = earlier ++ field :: later ∧ table.Dangling field target ∧
    (∀ type ∈ before, ∀ f ∈ type.fields, ∀ t, ¬ table.Dangling f t) ∧
    ∀ f ∈ earlier, ∀ t, ¬ table.Dangling f t

theorem FirstDangling.dangles {owner : TypeDefinition} {field : Field} {target : String}
    (h : table.FirstDangling owner field target) : table.Dangles := by
  obtain ⟨before, after, earlier, later, hdefinitions, hfields, hdangling, -⟩ := h
  refine ⟨owner, ?_, field, ?_, target, hdangling⟩
  · rw [hdefinitions]
    exact List.mem_append_right _ List.mem_cons_self
  · rw [hfields]
    exact List.mem_append_right _ List.mem_cons_self

/-! ## Members -/

section Members

variable {owner : PlacedType} {field : Field}

theorem heldBy_eq_error {e : Error} : table.heldBy owner field = .error e ↔
    ∃ target, table.Dangling field target ∧
      .unresolvedReference owner.name field.name target = e := by
  unfold heldBy Dangling
  cases hheld : field.heldType? with
  | none =>
    refine iff_of_false (fun h => nomatch h) ?_
    rintro ⟨target, ⟨hholds, -⟩, -⟩
    exact Field.heldType?_eq_none.1 hheld target hholds
  | some target =>
    simp only [Field.holds_iff_of_heldType? hheld]
    cases hresolve : table.resolve? target with
    | none =>
      simp only [Except.error.injEq]
      constructor
      · exact fun h => ⟨target, ⟨rfl, resolve?_eq_none.1 hresolve⟩, h⟩
      · rintro ⟨_, ⟨rfl, -⟩, h⟩
        exact h
    | some id =>
      refine iff_of_false (fun h => nomatch h) ?_
      rintro ⟨_, ⟨rfl, hnone⟩, -⟩
      exact hnone id (resolve?_eq_some.1 hresolve)

theorem heldBy_eq_some {id : Nat} : table.heldBy owner field = .ok (some id) ↔
    ∃ target, field.Holds target ∧ table.Resolves target id := by
  unfold heldBy
  cases hheld : field.heldType? with
  | none =>
    refine iff_of_false (fun h => nomatch h) ?_
    rintro ⟨target, hholds, -⟩
    exact Field.heldType?_eq_none.1 hheld target hholds
  | some target =>
    simp only [Field.holds_iff_of_heldType? hheld, ← resolve?_eq_some, exists_eq_left]
    cases table.resolve? target with
    | none => exact iff_of_false (fun h => nomatch h) (fun h => nomatch h)
    | some other => simp only [Except.ok.injEq]

/-- A member can be followed exactly if it is not dangling. -/
theorem exists_heldBy : (∃ held, table.heldBy owner field = .ok held) ↔
    ∀ target, ¬ table.Dangling field target := by
  cases hheld : table.heldBy owner field with
  | error e =>
    obtain ⟨target, hdangling, -⟩ := heldBy_eq_error.1 hheld
    exact iff_of_false (fun h => nomatch h) fun h => h target hdangling
  | ok held =>
    refine iff_of_true ⟨held, rfl⟩ fun target hdangling => ?_
    have herror : table.heldBy owner field =
        .error (.unresolvedReference owner.name field.name target) :=
      heldBy_eq_error.2 ⟨target, hdangling, rfl⟩
    rw [hheld] at herror
    cases herror

end Members

/-! ## Edges -/

/-- The edges to a type from those that it embeds. -/
def edgesTo (table : TypeTable) (owner : PlacedType) : Except Error (List (Nat × Nat)) := do
  let held ← owner.definition.fields.mapM (table.heldBy owner)
  return (held.filterMap id).map fun target => (target, owner.id)

theorem dependencies_eq (table : TypeTable) :
    table.dependencies = (table.types.mapM table.edgesTo).map List.flatten := by
  unfold dependencies
  change (table.types.mapM table.edgesTo >>= fun edges => pure edges.flatten) = _
  cases table.types.mapM table.edgesTo with
  | error e => rfl
  | ok edges => rfl

theorem edgesTo_eq_ok {owner : PlacedType} {edges : List (Nat × Nat)}
    (h : table.edgesTo owner = .ok edges) {a b : Nat} : (a, b) ∈ edges ↔ b = owner.id ∧
      ∃ field ∈ owner.definition.fields, ∃ target, field.Holds target ∧ table.Resolves target a := by
  obtain ⟨held, hheld, h⟩ := bind_eq_ok.1 h
  cases h
  simp only [List.mem_map, List.mem_filterMap, id, Prod.mk.injEq, exists_eq_right,
    mem_of_mapM_eq_ok hheld, heldBy_eq_some]
  constructor
  · rintro ⟨_, ha, rfl, rfl⟩
    exact ⟨rfl, ha⟩
  · rintro ⟨rfl, ha⟩
    exact ⟨a, ha, rfl, rfl⟩

theorem exists_edgesTo {owner : PlacedType} : (∃ edges, table.edgesTo owner = .ok edges) ↔
    ∀ field ∈ owner.definition.fields, ∀ target, ¬ table.Dangling field target := by
  constructor
  · rintro ⟨edges, hedges⟩ field hfield
    obtain ⟨held, hheld, -⟩ := bind_eq_ok.1 hedges
    obtain ⟨found, -, hfound⟩ := exists_of_mem_left (mapM_eq_ok.1 hheld) hfield
    exact exists_heldBy.1 ⟨found, hfound⟩
  · intro h
    cases hheld : owner.definition.fields.mapM (table.heldBy owner) with
    | ok held => exact ⟨_, bind_eq_ok.2 ⟨held, hheld, rfl⟩⟩
    | error e =>
      obtain ⟨before, field, after, hsplit, -, herror⟩ := mapM_eq_error.1 hheld
      obtain ⟨target, hdangling, -⟩ := heldBy_eq_error.1 herror
      exact absurd hdangling (h field (hsplit ▸ List.mem_append_right _ List.mem_cons_self) target)

theorem edgesTo_eq_error {owner : PlacedType} {e : Error} (h : table.edgesTo owner = .error e) :
    ∃ earlier field later target, owner.definition.fields = earlier ++ field :: later ∧
      table.Dangling field target ∧ (∀ f ∈ earlier, ∀ t, ¬ table.Dangling f t) ∧
      .unresolvedReference owner.name field.name target = e := by
  have hheld : owner.definition.fields.mapM (table.heldBy owner) = .error e := by
    unfold edgesTo at h
    cases hheld : owner.definition.fields.mapM (table.heldBy owner) with
    | error e' =>
      rw [hheld] at h
      cases h
      rfl
    | ok held =>
      rw [hheld] at h
      cases h
  obtain ⟨earlier, field, later, hsplit, hearlier, herror⟩ := mapM_eq_error.1 hheld
  obtain ⟨target, hdangling, hname⟩ := heldBy_eq_error.1 herror
  exact ⟨earlier, field, later, target, hsplit, hdangling,
    fun f hf => exists_heldBy.1 (hearlier f hf), hname⟩

/-- Where all members can be followed the edges are exactly what is embedded. -/
theorem dependencies_eq_ok {edges : List (Nat × Nat)} (h : table.dependencies = .ok edges) :
    ¬ table.Dangles ∧ ∀ a b, (a, b) ∈ edges ↔ table.Embeds b a := by
  rw [dependencies_eq] at h
  obtain ⟨lists, hlists, rfl⟩ := map_eq_ok.1 h
  constructor
  · rintro ⟨definition, hdefinition, field, hfield, target, hdangling⟩
    rw [← table.map_definition_types] at hdefinition
    obtain ⟨owner, howner, rfl⟩ := List.mem_map.1 hdefinition
    obtain ⟨list, -, hlist⟩ := exists_of_mem_left (mapM_eq_ok.1 hlists) howner
    exact exists_edgesTo.1 ⟨list, hlist⟩ field hfield target hdangling
  · intro a b
    rw [List.mem_flatten]
    constructor
    · rintro ⟨list, hlist, hmem⟩
      obtain ⟨owner, howner, hedges⟩ := exists_of_mem_mapM hlists hlist
      obtain ⟨rfl, field, hfield, target, hholds, hresolves⟩ := (edgesTo_eq_ok hedges).1 hmem
      exact ⟨owner.definition, field, target, mem_types.1 howner, hfield, hholds, hresolves⟩
    · rintro ⟨definition, field, target, hdefinition, hfield, hholds, hresolves⟩
      have howner : (⟨b, definition⟩ : PlacedType) ∈ table.types := mem_types.2 hdefinition
      obtain ⟨list, hlist, hedges⟩ := exists_of_mem_left (mapM_eq_ok.1 hlists) howner
      exact ⟨list, hlist, (edgesTo_eq_ok hedges).2
        ⟨rfl, field, hfield, target, hholds, hresolves⟩⟩

/-- A member that cannot be followed is reported, the first of them. -/
theorem dependencies_eq_error {e : Error} (h : table.dependencies = .error e) :
    ∃ owner field target, table.FirstDangling owner field target ∧
      .unresolvedReference owner.name field.name target = e := by
  have hlists : table.types.mapM table.edgesTo = .error e := by
    rw [dependencies_eq] at h
    cases hlists : table.types.mapM table.edgesTo with
    | error e' =>
      rw [hlists] at h
      cases h
      rfl
    | ok lists =>
      rw [hlists] at h
      cases h
  obtain ⟨before, owner, after, hsplit, hbefore, herror⟩ := mapM_eq_error.1 hlists
  obtain ⟨earlier, field, later, target, hfields, hdangling, hearlier, hname⟩ :=
    edgesTo_eq_error herror
  have hdefinitions := table.map_definition_types
  rw [hsplit, List.map_append, List.map_cons] at hdefinitions
  refine ⟨owner.definition, field, target, ⟨before.map (·.definition), after.map (·.definition),
    earlier, later, hdefinitions.symm, hfields, hdangling, fun type htype => ?_, hearlier⟩, hname⟩
  obtain ⟨placed, hplaced, rfl⟩ := List.mem_map.1 htype
  exact exists_edgesTo.1 (hbefore placed hplaced)

/-! ## Numbers and types -/

theorem Embeds.lt {a b : Nat} (h : table.Embeds b a) : a < table.length ∧ b < table.length := by
  obtain ⟨owner, field, target, howner, -, -, hresolves⟩ := h
  exact ⟨hresolves.lt, (List.getElem?_eq_some_iff.1 howner).1⟩

theorem map_id_get? (table : TypeTable) (id : Nat) :
    (table.get? id).map PlacedType.id = table.identities[id]?.map fun _ => id := by
  rw [get?, identities, List.getElem?_map, Option.map_map, Option.map_map]
  rfl

theorem map_identity_get? (table : TypeTable) (id : Nat) :
    (table.get? id).map (table.identity ·.definition) = table.identities[id]? := by
  rw [get?, identities, List.getElem?_map, Option.map_map]
  rfl

/-- All numbers in order give all types in order. -/
theorem filterMap_get?_range (table : TypeTable) :
    (List.range table.length).filterMap table.get? = table.types := by
  have hget : table.get? = (table.types[·]?) := by
    funext id
    rw [get?, types, List.getElem?_map, List.getElem?_zipIdx, Option.map_map]
    cases table.definitions[id]? with
    | none => rfl
    | some definition => simp
  have hlength : table.length = table.types.length := by
    rw [types, List.length_map, List.length_zipIdx, length]
  rw [hget, hlength, filterMap_getElem?_range]

end TypeTable

end ModelBinding
