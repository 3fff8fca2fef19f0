import ModelBinding.Proofs.Types.Resolution
import ModelBinding.Types.Index

/-!
# What a table of types answers

Some definitions make a table unless two of them have one identity; then the first that repeats an earlier
one is reported. What the table answers by number, by identity and by name is what was declared. An index
that is filled one declaration after the other refuses the same definitions and finds the same types
and members.
-/
namespace ModelBinding

/-! ## Positions -/

section Positions

variable {names : List String} {name : String}

theorem get?_positions_concat (names : List String) (last name : String) :
    (positions (names ++ [last])).get? name =
      if name = last then some names.length else (positions names).get? name := by
  have hentries : orderEntries (names ++ [last]).zipIdx =
      insertEntry last names.length (orderEntries names.zipIdx) := by
    rw [orderEntries, List.zipIdx_append, List.foldl_append, Nat.zero_add]
    rfl
  change (orderEntries (names ++ [last]).zipIdx).lookup name = _
  rw [hentries]
  exact lookup_insertEntry last name names.length _

theorem lt_of_get?_positions {position : Nat} (h : (positions names).get? name = some position) :
    position < names.length := by
  induction names using List.reverseRecOn with
  | nil => cases h
  | append_singleton names last ih =>
    rw [get?_positions_concat] at h
    rw [List.length_append, List.length_singleton]
    split_ifs at h
    · cases h
      exact Nat.lt_succ_self _
    · exact Nat.lt_succ_of_lt (ih h)

theorem isSome_get?_positions : ((positions names).get? name).isSome = true ↔ name ∈ names := by
  induction names using List.reverseRecOn with
  | nil => exact iff_of_false (fun h => nomatch h) List.not_mem_nil
  | append_singleton names last ih =>
    rw [get?_positions_concat, List.mem_append, List.mem_singleton]
    split_ifs with hlast
    · exact iff_of_true rfl (.inr hlast)
    · rw [ih, or_iff_left hlast]

end Positions

namespace IndexedType

variable {definition : TypeDefinition} {id : Nat} {name : String}

theorem hasMember_assign : (assign definition id).hasMember name = definition.hasMember name := by
  rw [Bool.eq_iff_iff]
  exact isSome_get?_positions.trans List.contains_iff_mem.symm

/-- The last position of a name is that of the last field. -/
theorem field?_assign : (assign definition id).field? name = definition.field? name := by
  obtain ⟨typeName, doc, location, members⟩ := definition
  cases members with
  | enumerators list =>
    exact Option.bind_eq_none_iff.2 fun _ _ => rfl
  | fields list =>
    change ((positions (list.map (·.name))).get? name).bind (list[·]?) =
      list.reverse.find? (·.name = name)
    induction list using List.reverseRecOn with
    | nil => rfl
    | append_singleton list last ih =>
      rw [List.map_append, List.map_singleton, get?_positions_concat, List.reverse_concat, List.find?_cons,
        List.length_map]
      by_cases hlast : name = last.name
      · simp [hlast]
      · rw [if_neg hlast, decide_eq_false (Ne.symm hlast), ← ih]
        refine Option.bind_congr fun position hposition => ?_
        have hlt := lt_of_get?_positions hposition
        rw [List.length_map] at hlt
        exact List.getElem?_append_left hlt

end IndexedType

/-! ## Filling an index -/

theorem getElem?_concat_eq_some {α : Type} {as : List α} {last a : α} {i : Nat} :
    (as ++ [last])[i]? = some a ↔ as[i]? = some a ∨ i = as.length ∧ a = last := by
  rw [List.getElem?_append]
  split_ifs with hlt
  · exact (or_iff_left fun h => Nat.ne_of_lt hlt h.1).symm
  · rw [List.getElem?_eq_none (Nat.le_of_not_lt hlt), List.getElem?_singleton]
    split_ifs with hlast
    · have hlength : i = as.length := by omega
      simp [hlength, eq_comm]
    · have hlength : i ≠ as.length := by omega
      simp [hlength]

namespace TypeTable

variable {table : TypeTable} {definition : TypeDefinition}

/-- A table with one more definition. -/
def concat (table : TypeTable) (definition : TypeDefinition)
    (hnew : table.identity definition ∉ table.identities) : TypeTable where
  classIdentifier := table.classIdentifier
  definitions := table.definitions ++ [definition]
  distinct := by
    rw [List.map_append, List.map_singleton, List.nodup_append]
    refine ⟨table.distinct, List.nodup_singleton _, fun identity hmem last hlast heq => hnew ?_⟩
    rwa [heq, List.mem_singleton.1 hlast] at hmem

theorem identities_concat (hnew : table.identity definition ∉ table.identities) :
    (table.concat definition hnew).identities = table.identities ++ [table.identity definition] :=
  List.map_append

/-- One more definition is declared under the next number. -/
theorem declares_concat (hnew : table.identity definition ∉ table.identities) {id : Nat}
    {identity : String} : (table.concat definition hnew).Declares id identity ↔
      table.Declares id identity ∨ id = table.length ∧ identity = table.identity definition := by
  unfold Declares
  rw [identities_concat, getElem?_concat_eq_some, identities, List.length_map]
  rfl

end TypeTable

namespace TypeIndex

variable {index : TypeIndex} {table : TypeTable} {definition : TypeDefinition}

/-- The index has the types of the table under their numbers and identities. -/
structure Holds (index : TypeIndex) (table : TypeTable) : Prop where
  classIdentifier : index.classIdentifier = table.classIdentifier
  types : index.types = table.types.map fun type => .assign type.definition type.id
  identities : ∀ identity id, index.identities.get? identity = some id ↔ table.Declares id identity

theorem holds_empty (classIdentifier : String) : (empty classIdentifier).Holds ⟨classIdentifier, [], List.nodup_nil⟩ where
  classIdentifier := rfl
  types := rfl
  identities _ _ := iff_of_false (fun h => nomatch h) fun h => nomatch h

theorem Holds.identityOf_eq (h : index.Holds table) (definition : TypeDefinition) :
    TypeTable.identityOf index.classIdentifier definition = table.identity definition :=
  congrArg (TypeTable.identityOf · definition) h.classIdentifier

theorem Holds.length_types (h : index.Holds table) : index.types.length = table.length := by
  rw [h.types, List.length_map, TypeTable.types, List.length_map, List.length_zipIdx]
  rfl

theorem Holds.get?_identities_eq_none (h : index.Holds table) {identity : String} :
    index.identities.get? identity = none ↔ identity ∉ table.identities := by
  rw [Option.eq_none_iff_forall_ne_some, List.mem_iff_getElem?, not_exists]
  exact forall_congr' fun id => not_congr (h.identities identity id)

/-- What is declared once more is refused. -/
theorem Holds.declare_of_mem (h : index.Holds table)
    (hmem : table.identity definition ∈ table.identities) :
    index.declare definition = .error (.duplicateType (table.identity definition)) := by
  simp only [declare, h.identityOf_eq]
  cases htaken : index.identities.get? (table.identity definition) with
  | none => exact absurd hmem (h.get?_identities_eq_none.1 htaken)
  | some id => rfl

/-- What is new is entered under the next number and changes nothing else. -/
theorem Holds.declare_of_notMem (h : index.Holds table)
    (hnew : table.identity definition ∉ table.identities) :
    ∃ next, index.declare definition = .ok next ∧ next.Holds (table.concat definition hnew) := by
  have hfree := h.get?_identities_eq_none.2 hnew
  simp only [declare, h.identityOf_eq, hfree, h.length_types]
  refine ⟨_, rfl, h.classIdentifier, ?_, fun identity id => ?_⟩
  · simp [h.types, TypeTable.types, TypeTable.length, TypeTable.concat, List.zipIdx_append]
  · rw [TypeTable.declares_concat, ← h.identities]
    refine (Eq.congr_left (lookup_insertEntry _ identity _ _)).trans ?_
    by_cases hlast : identity = table.identity definition
    · rw [if_pos hlast, hlast, Option.some.injEq]
      have hnone : index.identities.get? (table.identity definition) ≠ some id :=
        fun hid => Option.some_ne_none id (hid.symm.trans hfree)
      exact ⟨fun hid => .inr ⟨hid.symm, rfl⟩, fun hid => (hid.resolve_left hnone).1.symm⟩
    · rw [if_neg hlast]
      exact (or_iff_left fun hid => hlast hid.2).symm

/-- Entering definitions one after the other, the first that is there already is refused. -/
theorem Holds.foldlM_declare {seen : List String} (h : index.Holds table)
    (hseen : ∀ identity, identity ∈ seen ↔ identity ∈ table.identities)
    (definitions : List TypeDefinition) :
    (∃ next whole, definitions.foldlM declare index = .ok next ∧
      whole.classIdentifier = table.classIdentifier ∧
      whole.definitions = table.definitions ++ definitions ∧ next.Holds whole) ∨
    ∃ identity, firstRepeated? seen (definitions.map table.identity) = some identity ∧
      definitions.foldlM declare index = .error (.duplicateType identity) := by
  -- The index holds what was entered so far, which `seen` has the identities of.
  induction definitions generalizing index table seen with
  | nil => exact .inl ⟨index, table, rfl, rfl, (List.append_nil _).symm, h⟩
  | cons definition rest ih =>
    rw [List.map_cons, List.foldlM_cons]
    by_cases hmem : table.identity definition ∈ table.identities
    · rw [firstRepeated?_cons_of_mem ((hseen _).2 hmem), h.declare_of_mem hmem]
      exact .inr ⟨_, rfl, rfl⟩
    · obtain ⟨next, hnext, hholds⟩ := h.declare_of_notMem hmem
      have hnow : ∀ identity, identity ∈ table.identity definition :: seen ↔
          identity ∈ (table.concat definition hmem).identities := by
        intro identity
        rw [TypeTable.identities_concat, List.mem_append, List.mem_singleton, List.mem_cons, hseen,
          or_comm]
      rw [firstRepeated?_cons_of_notMem (mt (hseen _).1 hmem), hnext]
      rcases ih hholds hnow with ⟨last, whole, hlast, hclass, hdefinitions, hwhole⟩ | hrefused
      · rw [TypeTable.concat, List.append_assoc] at hdefinitions
        exact .inl ⟨last, whole, hlast, hclass, hdefinitions, hwhole⟩
      · exact .inr hrefused

end TypeIndex

/-! ## Identities -/

section Identities

variable {classIdentifier identity : String} {a b : TypeDefinition} {definitions : List TypeDefinition}

/-- Two types that the generated code could not tell apart: a type of the root and one of the model class
are taken for each other if the first is spelled like the path to the second. -/
def Clash (classIdentifier : String) (a b : TypeDefinition) : Prop :=
  match a.location, b.location with
  | .root, .root => a.name = b.name
  | .modelClass, .modelClass => a.name = b.name
  | .root, .modelClass => a.name = classIdentifier ++ "::" ++ b.name
  | .modelClass, .root => classIdentifier ++ "::" ++ a.name = b.name

theorem TypeTable.identityOf_eq_iff :
    identityOf classIdentifier a = identityOf classIdentifier b ↔ Clash classIdentifier a b := by
  unfold identityOf Clash
  cases a.location <;> cases b.location
  · exact Iff.rfl
  · exact Iff.rfl
  · exact Iff.rfl
  · exact String.append_right_inj _

/-- The first of some definitions that repeats an earlier one has that identity. -/
def FirstRepeat (classIdentifier : String) (definitions : List TypeDefinition) (identity : String) : Prop :=
  ∃ before repeated after, definitions = before ++ repeated :: after ∧
    before.Pairwise (¬ Clash classIdentifier · ·) ∧ (∃ earlier ∈ before, Clash classIdentifier earlier repeated) ∧
    identity = TypeTable.identityOf classIdentifier repeated

theorem nodup_identities : (definitions.map (TypeTable.identityOf classIdentifier)).Nodup ↔
    definitions.Pairwise (¬ Clash classIdentifier · ·) := by
  rw [List.Nodup, List.pairwise_map]
  exact List.Pairwise.iff fun _ _ => not_congr TypeTable.identityOf_eq_iff

theorem firstRepeated?_identities_eq_some :
    firstRepeated? [] (definitions.map (TypeTable.identityOf classIdentifier)) = some identity ↔
      FirstRepeat classIdentifier definitions identity := by
  rw [firstRepeated?_eq_some]
  simp only [firstRepeated?_nil_eq_none]
  constructor
  · rintro ⟨before, after, hsplit, hbefore, hmem⟩
    obtain ⟨before, rest, rfl, rfl, hrest⟩ := List.map_eq_append_iff.1 hsplit
    obtain ⟨repeated, after, rfl, rfl, rfl⟩ := List.map_eq_cons_iff.1 hrest
    obtain ⟨earlier, hearlier, heq⟩ := List.mem_map.1 (hmem.resolve_right List.not_mem_nil)
    exact ⟨before, repeated, after, rfl, nodup_identities.1 hbefore,
      ⟨earlier, hearlier, TypeTable.identityOf_eq_iff.1 heq⟩, rfl⟩
  · rintro ⟨before, repeated, after, rfl, hbefore, ⟨earlier, hearlier, hclash⟩, rfl⟩
    refine ⟨before.map _, after.map _, List.map_append, nodup_identities.2 hbefore, .inl ?_⟩
    exact List.mem_map.2 ⟨earlier, hearlier, TypeTable.identityOf_eq_iff.2 hclash⟩

end Identities

/-! ## Look-ups -/

namespace TypeTable

variable {table : TypeTable} {type : PlacedType} {name identity : String}

theorem getElem?_types {i : Nat} :
    table.types[i]? = some type ↔ type.id = i ∧ table.definitions[i]? = some type.definition := by
  rw [types, List.getElem?_map, List.getElem?_zipIdx, Nat.zero_add, Option.map_map, Option.map_eq_some_iff]
  constructor
  · rintro ⟨definition, hdefinition, rfl⟩
    exact ⟨rfl, hdefinition⟩
  · rintro ⟨rfl, hdefinition⟩
    exact ⟨_, hdefinition, rfl⟩

theorem getElem?_types_eq_get? (table : TypeTable) (id : Nat) : table.types[id]? = table.get? id := by
  rw [types, get?, List.getElem?_map, List.getElem?_zipIdx, Nat.zero_add, Option.map_map]
  rfl

theorem nodup_aliasNames (table : TypeTable) : (table.types.map PlacedType.aliasName).Nodup := by
  have hids : table.types.map PlacedType.id = List.range' 0 table.definitions.length := by
    rw [types, List.map_map]
    exact List.zipIdx_map_snd 0 _
  have hnodup : (table.types.map PlacedType.id).Nodup := hids ▸ List.nodup_range'
  have haliases : table.types.map PlacedType.aliasName =
      (table.types.map PlacedType.id).map fun id => "SlxpyPodType_" ++ toString id := by
    rw [List.map_map]
    rfl
  rw [haliases]
  refine hnodup.map fun a b h => ?_
  have hdigits := congrArg String.toList ((String.append_right_inj _).1 h)
  rw [toList_toString_ofNat, toList_toString_ofNat] at hdigits
  rw [← digitsValue_toDigits a, hdigits, digitsValue_toDigits]

theorem getQualified?_eq_some : table.getQualified? identity = some type ↔
      type ∈ table.types ∧ table.identity type.definition = identity := by
  rw [getQualified?, Option.bind_eq_some_iff]
  simp only [idOf?_eq_some, ← getElem?_types_eq_get?, getElem?_types]
  unfold Declares identities
  constructor
  · rintro ⟨id, hid, rfl, htype⟩
    rw [List.getElem?_map, htype] at hid
    exact ⟨mem_types.2 htype, Option.some.inj hid⟩
  · rintro ⟨hmem, rfl⟩
    have htype := mem_types.1 hmem
    exact ⟨type.id, by rw [List.getElem?_map, htype]; rfl, rfl, htype⟩

theorem lookup_eq_ok : table.lookup name = .ok type ↔ type ∈ table.types ∧ type.name = name ∧
    ∀ other ∈ table.types, other.name = name → type.id ≤ other.id := by
  have hfind : table.lookup name = .ok type ↔ table.types.find? (·.name = name) = some type := by
    unfold lookup
    cases table.types.find? (·.name = name) <;> simp
  have hat : ∀ other ∈ table.types, table.types[other.id]? = some other :=
    fun other hother => getElem?_types.2 ⟨rfl, mem_types.1 hother⟩
  rw [hfind, List.find?_eq_some_iff_getElem]
  simp only [decide_eq_true_eq, Bool.not_eq_true', decide_eq_false_iff_not]
  constructor
  · rintro ⟨hname, i, hlt, hi, hfirst⟩
    obtain ⟨rfl, hdefinition⟩ := getElem?_types.1 (List.getElem?_eq_some_iff.2 ⟨hlt, hi⟩)
    refine ⟨mem_types.2 hdefinition, hname, fun other hother hother' => Nat.le_of_not_lt fun hbefore => ?_⟩
    obtain ⟨hlt', heq⟩ := List.getElem?_eq_some_iff.1 (hat other hother)
    exact hfirst other.id hbefore (by rwa [heq])
  · rintro ⟨hmem, hname, hleast⟩
    obtain ⟨hlt, heq⟩ := List.getElem?_eq_some_iff.1 (hat type hmem)
    refine ⟨hname, type.id, hlt, heq, fun j hj hjname => ?_⟩
    have hother := getElem?_types.1 (List.getElem?_eq_getElem (hj.trans hlt))
    exact absurd hj (Nat.not_lt.2 (hother.1 ▸ hleast _ (List.getElem_mem _) hjname))

theorem lookup_eq_error {e : Error} : table.lookup name = .error e ↔
    (∀ type ∈ table.types, type.name ≠ name) ∧ e = .typeNotFound name := by
  unfold lookup
  cases hfind : table.types.find? (·.name = name) with
  | some found =>
    have hfound : found.name = name := of_decide_eq_true (List.find?_eq_some_iff_append.1 hfind).1
    exact iff_of_false (fun h => nomatch h) fun h => h.1 found (List.mem_of_find?_eq_some hfind) hfound
  | none =>
    have hnone := List.find?_eq_none.1 hfind
    simp only [decide_eq_true_eq] at hnone
    simp only [Except.error.injEq, and_iff_right hnone, eq_comm]

end TypeTable

/-! ## A table and its index -/

/-- The look-ups of a table lead to the types as they were declared. -/
structure TypeTable.Answers (table : TypeTable) (classIdentifier : String)
    (definitions : List TypeDefinition) : Prop where
  types : ∀ (i : Nat) (type : PlacedType),
    table.types[i]? = some type ↔ type.id = i ∧ definitions[i]? = some type.definition
  get? : ∀ i : Nat, table.get? i = table.types[i]?
  aliasNames : (table.types.map PlacedType.aliasName).Nodup
  getQualified? : ∀ (identity : String) (type : PlacedType), table.getQualified? identity = some type ↔
    type ∈ table.types ∧ identityOf classIdentifier type.definition = identity
  /-- A name leads to the first type that has it. -/
  found : ∀ (name : String) (type : PlacedType), table.lookup name = .ok type ↔
    type ∈ table.types ∧ type.name = name ∧ ∀ other ∈ table.types, other.name = name → type.id ≤ other.id
  missing : ∀ (name : String) (e : Error), table.lookup name = .error e ↔
    (∀ type ∈ table.types, type.name ≠ name) ∧ e = .typeNotFound name
  hasMember : ∀ type ∈ table.types, ∀ name : String,
    type.definition.hasMember name = true ↔ name ∈ type.definition.members.names
  field? : ∀ type ∈ table.types, ∀ (name : String) (field : Field),
    type.definition.field? name = some field ↔ type.definition.LastNamed name field
  enum : ∀ type ∈ table.types, type.definition.isEnum = true → ∀ name : String,
    type.definition.field? name = none

/-- Every look-up in the index leads where it leads in the table. -/
structure TypeIndex.Agrees (index : TypeIndex) (table : TypeTable) : Prop where
  types : index.types.map (·.type) = table.types
  get? : ∀ id : Nat, (index.get? id).map (·.type) = table.get? id
  getQualified? : ∀ identity : String,
    (index.getQualified? identity).map (·.type) = table.getQualified? identity
  lookup : ∀ name : String, (index.lookup name).map (·.type) = table.lookup name
  hasMember : ∀ indexed ∈ index.types, ∀ name : String,
    indexed.hasMember name = indexed.type.definition.hasMember name
  field? : ∀ indexed ∈ index.types, ∀ name : String,
    indexed.field? name = indexed.type.definition.field? name

theorem TypeDefinition.field?_of_isEnum {type : TypeDefinition} (h : type.isEnum = true) (name : String) :
    type.field? name = none := by
  unfold isEnum at h
  unfold field? fields
  cases hmembers : type.members with
  | fields list =>
    rw [hmembers] at h
    cases h
  | enumerators list => rfl

theorem TypeIndex.Holds.agrees {index : TypeIndex} {table : TypeTable} (h : index.Holds table) :
    index.Agrees table := by
  have htypes : index.types.map (·.type) = table.types := by
    rw [h.types, List.map_map]
    exact List.map_id _
  have hget : ∀ id, (index.get? id).map (·.type) = table.get? id := fun id => by
    rw [get?, ← List.getElem?_map, htypes, TypeTable.getElem?_types_eq_get?]
  have hassigned : ∀ indexed ∈ index.types, ∃ type : PlacedType, .assign type.definition type.id = indexed :=
    fun indexed hindexed => by
      rw [h.types] at hindexed
      obtain ⟨type, -, heq⟩ := List.mem_map.1 hindexed
      exact ⟨type, heq⟩
  have hids : ∀ identity, index.identities.get? identity = table.idOf? identity := fun identity => by
    refine Option.ext fun id => ?_
    rw [h.identities, TypeTable.idOf?_eq_some]
  refine ⟨htypes, hget, fun identity => ?_, fun name => ?_, fun indexed hindexed name => ?_,
    fun indexed hindexed name => ?_⟩
  · rw [getQualified?, hids, Option.map_bind]
    exact Option.bind_congr fun id _ => hget id
  · have hfind : table.types.find? (·.name = name) =
        (index.types.find? (·.type.name = name)).map (·.type) := by
      rw [← htypes, List.find?_map]
      rfl
    rw [lookup, TypeTable.lookup, hfind]
    cases index.types.find? (·.type.name = name) <;> rfl
  · obtain ⟨type, rfl⟩ := hassigned indexed hindexed
    exact IndexedType.hasMember_assign
  · obtain ⟨type, rfl⟩ := hassigned indexed hindexed
    exact IndexedType.field?_assign

namespace TypeTable

variable {classIdentifier : String} {definitions : List TypeDefinition}

theorem make_eq_error {e : Error} : make definitions classIdentifier = .error e ↔
    ∃ identity, FirstRepeat classIdentifier definitions identity ∧ e = .duplicateType identity := by
  simp only [← firstRepeated?_identities_eq_some]
  unfold make
  split
  · rename_i identity hrepeated
    simp [hrepeated, eq_comm]
  · rename_i hnone
    simp [hnone]

theorem exists_make_eq_error : (∃ e, make definitions classIdentifier = .error e) ↔
    ∃ (i j : Nat) (a b : TypeDefinition), i < j ∧ definitions[i]? = some a ∧ definitions[j]? = some b ∧
      Clash classIdentifier a b := by
  have hok : (∃ table, make definitions classIdentifier = .ok table) ↔
      definitions.Pairwise (¬ Clash classIdentifier · ·) := by
    rw [← nodup_identities]
    simp only [make_eq_ok]
    constructor
    · rintro ⟨_, hdistinct, -⟩
      exact hdistinct
    · exact fun hdistinct => ⟨_, hdistinct, rfl⟩
  rw [exists_error_iff, hok, List.pairwise_iff_getElem]
  constructor
  · intro h
    push Not at h
    obtain ⟨i, j, hi, hj, hlt, hclash⟩ := h
    exact ⟨i, j, _, _, hlt, List.getElem?_eq_getElem hi, List.getElem?_eq_getElem hj, hclash⟩
  · rintro ⟨i, j, a, b, hlt, ha, hb, hclash⟩ h
    obtain ⟨hi, rfl⟩ := List.getElem?_eq_some_iff.1 ha
    obtain ⟨hj, rfl⟩ := List.getElem?_eq_some_iff.1 hb
    exact h i j hi hj hlt hclash

theorem answers_of_make {table : TypeTable} (h : make definitions classIdentifier = .ok table) :
    table.Answers classIdentifier definitions := by
  obtain ⟨_, rfl⟩ := make_eq_ok.1 h
  exact {
    types := fun _ _ => getElem?_types
    get? := fun i => (getElem?_types_eq_get? _ i).symm
    aliasNames := nodup_aliasNames _
    getQualified? := fun _ _ => getQualified?_eq_some
    found := fun _ _ => lookup_eq_ok
    missing := fun _ _ => lookup_eq_error
    hasMember := fun _ _ _ => List.contains_iff_mem
    field? := fun _ _ _ _ => TypeDefinition.field?_eq_some
    enum := fun _ _ henum name => TypeDefinition.field?_of_isEnum henum name }

/-- An index that is filled with some definitions refuses what a table refuses. -/
theorem ofDefinitions_cases (definitions : List TypeDefinition) (classIdentifier : String) :
    (∃ (table : TypeTable) (index : TypeIndex), make definitions classIdentifier = .ok table ∧
      TypeIndex.ofDefinitions definitions classIdentifier = .ok index ∧ index.Holds table) ∨
    ∃ e, make definitions classIdentifier = .error e ∧
      TypeIndex.ofDefinitions definitions classIdentifier = .error e := by
  have hempty := TypeIndex.holds_empty classIdentifier
  rcases hempty.foldlM_declare (fun _ => Iff.rfl) definitions with
    ⟨index, table, hindex, rfl, rfl, hholds⟩ | ⟨identity, hrepeat, hindex⟩
  · exact .inl ⟨table, index, table.make_self, hindex, hholds⟩
  · refine .inr ⟨_, ?_, hindex⟩
    exact make_eq_error.2 ⟨identity, firstRepeated?_identities_eq_some.1 hrepeat, rfl⟩

/--
Making a table fails where two definitions clash, with the first that repeats an earlier one. The table
answers with what was declared, and so does an index that is filled one declaration after the other.
-/
theorem make_answers (definitions : List TypeDefinition) (classIdentifier : String) :
    ((∃ e, make definitions classIdentifier = .error e) ↔
      ∃ (i j : Nat) (a b : TypeDefinition), i < j ∧ definitions[i]? = some a ∧ definitions[j]? = some b ∧
        Clash classIdentifier a b) ∧
    (∀ e, make definitions classIdentifier = .error e ↔
      ∃ identity, FirstRepeat classIdentifier definitions identity ∧ e = .duplicateType identity) ∧
    (∀ e, TypeIndex.ofDefinitions definitions classIdentifier = .error e ↔
      make definitions classIdentifier = .error e) ∧
    ∀ table, make definitions classIdentifier = .ok table → table.Answers classIdentifier definitions ∧
      ∃ index, TypeIndex.ofDefinitions definitions classIdentifier = .ok index ∧ index.Agrees table := by
  refine ⟨exists_make_eq_error, fun _ => make_eq_error, fun e => ?_, fun table htable => ?_⟩
  · rcases ofDefinitions_cases definitions classIdentifier with ⟨_, _, hmake, hindex, -⟩ | ⟨_, hmake, hindex⟩
    · rw [hmake, hindex]
      exact iff_of_false (fun h => nomatch h) fun h => nomatch h
    · rw [hmake, hindex, Except.error.injEq, Except.error.injEq]
  · refine ⟨answers_of_make htable, ?_⟩
    rcases ofDefinitions_cases definitions classIdentifier with ⟨_, index, hmake, hindex, hholds⟩ | ⟨_, hmake, -⟩
    · cases htable.symm.trans hmake
      exact ⟨index, hindex, hholds.agrees⟩
    · cases htable.symm.trans hmake

/-- A struct with two fields of one name, and an enum of the model class that is called like the struct. -/
def namesakes : List TypeDefinition :=
  [⟨"A", "", .root, .fields [.plain "x", ⟨"x", "", .struct, none, some "Inner", by decide⟩]⟩,
    ⟨"A", "", .modelClass, .enumerators [⟨"x", "", 0⟩]⟩]

theorem make_answers_namesakes :
    make namesakes "M" = .ok ⟨"M", namesakes, by decide⟩ ∧
      (Answers ⟨"M", namesakes, by decide⟩ "M" namesakes ∧
        ∃ index, TypeIndex.ofDefinitions namesakes "M" = .ok index ∧
          index.Agrees ⟨"M", namesakes, by decide⟩) :=
  ⟨rfl, (make_answers namesakes "M").2.2.2 _ rfl⟩

end TypeTable

end ModelBinding
