import ModelBinding.Proofs.Types.Order

/-!
# Types in another order

Which types embed each other can be said by their identities, without numbers. So whether types can be
put in order, and which of them are in the way, does not depend on the order of their declarations.
-/
namespace ModelBinding.TypeTable

open Relation

variable {table : TypeTable} {name identity outer inner : String}

/-! ## By identity -/

theorem declares_iff {id : Nat} : table.Declares id identity ↔
    ∃ definition, table.definitions[id]? = some definition ∧ table.identity definition = identity := by
  rw [Declares, identities, List.getElem?_map, Option.map_eq_some_iff]

theorem exists_declares_iff : (∃ id, table.Declares id identity) ↔ identity ∈ table.identities :=
  List.mem_iff_getElem?.symm

theorem exists_declares_of_lt {id : Nat} (h : id < table.length) :
    ∃ identity, table.Declares id identity :=
  ⟨_, declares_iff.2 ⟨_, List.getElem?_eq_getElem h, rfl⟩⟩

theorem Declares.identity_eq {id : Nat} {other : String} (h : table.Declares id identity)
    (hother : table.Declares id other) : identity = other :=
  Option.some.inj (h.symm.trans hother)

/-- What a name refers to, by identity. -/
def Names (table : TypeTable) (name identity : String) : Prop :=
  identity ∈ table.identities ∧ (identity = name ∨
    name ∉ table.identities ∧ identity = qualify table.classIdentifier name .modelClass)

theorem resolves_iff {id : Nat} (h : table.Declares id identity) :
    table.Resolves name id ↔ table.Names name identity := by
  have hnone : (∀ other, ¬ table.Declares other name) ↔ name ∉ table.identities := by
    rw [← exists_declares_iff, not_exists]
  have hsame : ∀ other, table.Declares id other ↔ identity = other :=
    fun other => ⟨h.identity_eq, fun heq => heq ▸ h⟩
  rw [Resolves, Names, hsame, hsame, hnone]
  exact (and_iff_right (exists_declares_iff.1 ⟨id, h⟩)).symm

theorem exists_resolves_iff : (∃ id, table.Resolves name id) ↔ ∃ identity, table.Names name identity := by
  constructor
  · rintro ⟨id, hid⟩
    obtain ⟨identity, hidentity⟩ := exists_declares_of_lt hid.lt
    exact ⟨identity, (resolves_iff hidentity).1 hid⟩
  · rintro ⟨identity, hnames⟩
    obtain ⟨id, hid⟩ := exists_declares_iff.2 hnames.1
    exact ⟨id, (resolves_iff hid).2 hnames⟩

/-- A type has a member that holds another, both by identity. -/
def Includes (table : TypeTable) (outer inner : String) : Prop :=
  ∃ owner ∈ table.definitions, table.identity owner = outer ∧
    ∃ field ∈ owner.fields, ∃ target, field.Holds target ∧ table.Names target inner

theorem Includes.inner_mem (h : table.Includes outer inner) : inner ∈ table.identities := by
  obtain ⟨_, -, -, _, -, _, -, hnames⟩ := h
  exact hnames.1

theorem embeds_iff {a b : Nat} (hb : table.Declares b outer) (ha : table.Declares a inner) :
    table.Embeds b a ↔ table.Includes outer inner := by
  constructor
  · rintro ⟨owner, field, target, howner, hfield, hholds, hresolves⟩
    exact ⟨owner, List.mem_of_getElem? howner, (declares_iff.2 ⟨owner, howner, rfl⟩).identity_eq hb,
      field, hfield, target, hholds, (resolves_iff ha).1 hresolves⟩
  · rintro ⟨owner, howner, hidentity, field, hfield, target, hholds, hnames⟩
    obtain ⟨id, hid⟩ := List.mem_iff_getElem?.1 howner
    have heq : id = b := (declares_iff.2 ⟨owner, hid, hidentity⟩).unique hb
    exact ⟨owner, field, target, heq ▸ hid, hfield, hholds, (resolves_iff ha).2 hnames⟩

/-- A chain of embeddings is one of the identities. -/
theorem includes_of_embeds {a b : Nat} (hpath : TransGen table.Embeds b a)
    (hb : table.Declares b outer) (ha : table.Declares a inner) :
    TransGen table.Includes outer inner := by
  induction hpath generalizing inner with
  | single hembeds => exact .single ((embeds_iff hb ha).1 hembeds)
  | tail _ hembeds ih =>
    obtain ⟨mid, hmid⟩ := exists_declares_of_lt hembeds.lt.2
    exact (ih hmid).tail ((embeds_iff hmid ha).1 hembeds)

/-- A chain of identities is one of embeddings, wherever its ends are declared. -/
theorem embeds_of_includes {b : Nat} (hpath : TransGen table.Includes outer inner)
    (hb : table.Declares b outer) : ∃ a, table.Declares a inner ∧ TransGen table.Embeds b a := by
  induction hpath with
  | single hincludes =>
    obtain ⟨a, ha⟩ := exists_declares_iff.2 hincludes.inner_mem
    exact ⟨a, ha, .single ((embeds_iff hb ha).2 hincludes)⟩
  | tail _ hincludes ih =>
    obtain ⟨mid, hmid, hpath⟩ := ih
    obtain ⟨a, ha⟩ := exists_declares_iff.2 hincludes.inner_mem
    exact ⟨a, ha, hpath.tail ((embeds_iff hmid ha).2 hincludes)⟩

theorem embeds_self_iff {id : Nat} (h : table.Declares id identity) :
    TransGen table.Embeds id id ↔ TransGen table.Includes identity identity := by
  refine ⟨fun hpath => includes_of_embeds hpath h h, fun hpath => ?_⟩
  obtain ⟨a, ha, hpath⟩ := embeds_of_includes hpath h
  rwa [ha.unique h] at hpath

/-- A type that includes itself is the reason that the types have no order, and so is every such type. -/
theorem dependencyOrder_of_includes (hdangles : ¬ table.Dangles)
    (h : TransGen table.Includes identity identity) : ∃ names,
      table.dependencyOrder = .error (.circularTypes names) ∧
      ∀ name, name ∈ names ↔ TransGen table.Includes name name := by
  have hmem : ∀ name, TransGen table.Includes name name → name ∈ table.identities := by
    intro name hpath
    cases hpath with
    | single hincludes => exact hincludes.inner_mem
    | tail _ hincludes => exact hincludes.inner_mem
  obtain ⟨id, hid⟩ := exists_declares_iff.2 (hmem identity h)
  obtain ⟨names, horder, hsublist, hnames⟩ :=
    dependencyOrder_of_cycle hdangles ((embeds_self_iff hid).2 h)
  refine ⟨names, horder, fun name => ⟨fun hname => ?_, fun hpath => ?_⟩⟩
  · obtain ⟨id, hid⟩ := exists_declares_iff.2 (hsublist.subset hname)
    exact (embeds_self_iff hid).1 ((hnames id name hid).1 hname)
  · obtain ⟨id, hid⟩ := exists_declares_iff.2 (hmem name hpath)
    exact (hnames id name hid).2 ((embeds_self_iff hid).2 hpath)

theorem dependencyOrder_of_not_includes (hdangles : ¬ table.Dangles)
    (h : ∀ name, ¬ TransGen table.Includes name name) : ∃ order,
      table.dependencyOrder = .ok order ∧ (order.map (·.definition)).Perm table.definitions := by
  have hacyclic : ∀ id, ¬ TransGen table.Embeds id id := by
    intro id hpath
    have hlt : id < table.length := by
      cases hpath with
      | single hembeds => exact hembeds.lt.1
      | tail _ hembeds => exact hembeds.lt.1
    obtain ⟨name, hname⟩ := exists_declares_of_lt hlt
    exact h name (includes_of_embeds hpath hname hname)
  obtain ⟨order, horder, hperm, -⟩ := dependencyOrder_of_acyclic hdangles hacyclic
  exact ⟨order, horder, table.map_definition_types ▸ hperm.map _⟩

/-! ## Another order of declaration -/

section Reordered

variable {other : TypeTable} (hclass : other.classIdentifier = table.classIdentifier)
  (h : other.definitions.Perm table.definitions)
include hclass h

theorem identities_of_perm : other.identities.Perm table.identities := by
  have hidentity : other.identity = table.identity := congrArg identityOf hclass
  unfold identities
  rw [hidentity]
  exact h.map _

theorem names_of_perm : other.Names = table.Names := by
  funext name identity
  unfold Names
  rw [(identities_of_perm hclass h).mem_iff, (identities_of_perm hclass h).mem_iff, hclass]

theorem includes_of_perm : other.Includes = table.Includes := by
  have hidentity : other.identity = table.identity := congrArg identityOf hclass
  funext outer inner
  unfold Includes
  simp only [names_of_perm hclass h, h.mem_iff, hidentity]

theorem dangles_of_perm : other.Dangles ↔ table.Dangles := by
  unfold Dangles Dangling
  simp only [← not_exists, exists_resolves_iff, names_of_perm hclass h, h.mem_iff]

end Reordered

/-- Making a table fails only where two types have one identity. -/
theorem make_cases (definitions : List TypeDefinition) (classIdentifier : String) :
    (∃ distinct, make definitions classIdentifier = .ok ⟨classIdentifier, definitions, distinct⟩) ∨
    (¬ (definitions.map (identityOf classIdentifier)).Nodup ∧
      ∃ identity, make definitions classIdentifier = .error (.duplicateType identity)) := by
  unfold make
  split
  · rename_i identity hrepeated
    refine .inr ⟨fun hnodup => ?_, identity, rfl⟩
    exact Option.some_ne_none identity (hrepeated.symm.trans (firstRepeated?_nil_eq_none.2 hnodup))
  · rename_i hrepeated
    exact .inl ⟨firstRepeated?_nil_eq_none.1 hrepeated, rfl⟩

/--
Two verdicts on the order of some types that say the same: both are orders of the same types, both are
references to what is not declared, or both report the same types to embed themselves.
-/
inductive SameVerdict : (one other : Except Error (List PlacedType)) → Prop
  | ordered {one other : List PlacedType}
      (h : (one.map (·.definition)).Perm (other.map (·.definition))) :
      SameVerdict (.ok one) (.ok other)
  | unresolved (owner field target owner' field' target' : String) :
      SameVerdict (.error (.unresolvedReference owner field target))
        (.error (.unresolvedReference owner' field' target'))
  | circular {names names' : List String} (h : ∀ name, name ∈ names ↔ name ∈ names') :
      SameVerdict (.error (.circularTypes names)) (.error (.circularTypes names'))

theorem sameVerdict_of_perm {other : TypeTable} (hclass : other.classIdentifier = table.classIdentifier)
    (h : other.definitions.Perm table.definitions) :
    SameVerdict other.dependencyOrder table.dependencyOrder := by
  by_cases hdangles : table.Dangles
  · obtain ⟨_, _, _, -, hverdict⟩ := dependencyOrder_of_dangles hdangles
    obtain ⟨_, _, _, -, hverdict'⟩ :=
      dependencyOrder_of_dangles ((dangles_of_perm hclass h).2 hdangles)
    rw [hverdict, hverdict']
    exact .unresolved ..
  · have hdangles' := mt (dangles_of_perm hclass h).1 hdangles
    by_cases hcycle : ∃ name, TransGen table.Includes name name
    · obtain ⟨name, hname⟩ := hcycle
      obtain ⟨names, hverdict, hnames⟩ := dependencyOrder_of_includes hdangles hname
      rw [← includes_of_perm hclass h] at hname hnames
      obtain ⟨names', hverdict', hnames'⟩ := dependencyOrder_of_includes hdangles' hname
      rw [hverdict, hverdict']
      exact .circular fun name => (hnames' name).trans (hnames name).symm
    · have hnone := not_exists.1 hcycle
      obtain ⟨order, hverdict, hperm⟩ := dependencyOrder_of_not_includes hdangles hnone
      rw [← includes_of_perm hclass h] at hnone
      obtain ⟨order', hverdict', hperm'⟩ := dependencyOrder_of_not_includes hdangles' hnone
      rw [hverdict, hverdict']
      exact .ordered ((hperm'.trans h).trans hperm.symm)

/--
Whether some types make a table does not depend on the order in which they are declared, nor does
the verdict on the order of the table.
-/
theorem verdict_of_perm (classIdentifier : String) {definitions others : List TypeDefinition}
    (h : definitions.Perm others) :
    (∃ table other, make definitions classIdentifier = .ok table ∧
      make others classIdentifier = .ok other ∧
      SameVerdict table.dependencyOrder other.dependencyOrder) ∨
    ∃ identity identity', make definitions classIdentifier = .error (.duplicateType identity) ∧
      make others classIdentifier = .error (.duplicateType identity') := by
  have hidentities := (h.map (identityOf classIdentifier)).nodup_iff
  rcases make_cases definitions classIdentifier with ⟨hdistinct, hmake⟩ | ⟨hrepeated, identity, hmake⟩
  · rcases make_cases others classIdentifier with ⟨_, hmake'⟩ | ⟨hrepeated, -⟩
    · exact .inl ⟨_, _, hmake, hmake', sameVerdict_of_perm rfl h⟩
    · exact absurd (hidentities.1 hdistinct) hrepeated
  · rcases make_cases others classIdentifier with ⟨hdistinct, -⟩ | ⟨-, identity', hmake'⟩
    · exact absurd (hidentities.2 hdistinct) hrepeated
    · exact .inr ⟨identity, identity', hmake, hmake'⟩

/-- Two types that embed each other are in the way wherever they are declared. -/
theorem loop_verdict_of_reverse : loop.definitions.Perm loop.definitions.reverse ∧
    SameVerdict loop.dependencyOrder (dependencyOrder ⟨"C", loop.definitions.reverse, by decide⟩) := by
  have hperm : loop.definitions.Perm loop.definitions.reverse := (List.reverse_perm _).symm
  have hmake : make loop.definitions "C" = .ok loop := rfl
  have hmake' : make loop.definitions.reverse "C" = .ok ⟨"C", loop.definitions.reverse, by decide⟩ := rfl
  refine ⟨hperm, ?_⟩
  rcases verdict_of_perm "C" hperm with ⟨table, other, htable, hother, hverdict⟩ | ⟨_, _, herror, -⟩
  · cases hmake.symm.trans htable
    cases hmake'.symm.trans hother
    exact hverdict
  · cases hmake.symm.trans herror

end ModelBinding.TypeTable
