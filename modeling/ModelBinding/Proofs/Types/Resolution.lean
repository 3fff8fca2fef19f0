import Mathlib.Data.List.Nodup
import ModelBinding.Proofs.Context.Members

/-!
# Names of types

The types of a table have distinct identities, so a name refers to at most one of them: the type
with that identity, or else the one of that name in the model class. The members of a type have
names too, and only those of a struct are fields.
-/
namespace ModelBinding

variable {table : TypeTable} {id : Nat} {name identity : String}

/-! ## Repetitions -/

section Repetitions

variable {seen rest : List String}

theorem firstRepeated?_eq_some :
    firstRepeated? seen rest = some identity ↔ ∃ before after, rest = before ++ identity :: after ∧
      firstRepeated? seen before = none ∧ (identity ∈ before ∨ identity ∈ seen) := by
  induction rest generalizing seen with
  | nil => exact iff_of_false (fun h => nomatch h) fun ⟨_, _, h, _⟩ => by simp at h
  | cons name rest ih =>
    by_cases hseen : name ∈ seen
    · rw [firstRepeated?_cons_of_mem hseen]
      constructor
      · rintro ⟨⟩
        exact ⟨[], rest, rfl, rfl, .inr hseen⟩
      · rintro ⟨before, after, hsplit, hbefore, -⟩
        rcases List.cons_eq_append_iff.1 hsplit with ⟨-, h⟩ | ⟨before', rfl, -⟩
        · cases h
          rfl
        · exact absurd hseen ((firstRepeated?_eq_none.1 hbefore).2 name List.mem_cons_self)
    · rw [firstRepeated?_cons_of_notMem hseen, ih]
      constructor
      · rintro ⟨before, after, rfl, hbefore, hmem⟩
        refine ⟨name :: before, after, rfl, (firstRepeated?_cons_of_notMem hseen).trans hbefore, ?_⟩
        rw [List.mem_cons] at hmem ⊢
        rwa [or_assoc, or_left_comm]
      · rintro ⟨before, after, hsplit, hbefore, hmem⟩
        rcases List.cons_eq_append_iff.1 hsplit with ⟨rfl, h⟩ | ⟨before', rfl, rfl⟩
        · cases h
          exact absurd (hmem.resolve_left List.not_mem_nil) hseen
        · refine ⟨before', after, rfl, (firstRepeated?_cons_of_notMem hseen).symm.trans hbefore, ?_⟩
          rw [List.mem_cons] at hmem ⊢
          rwa [or_assoc, or_left_comm] at hmem

end Repetitions

/-- A list has no repetition if what it holds stands at one place. -/
theorem nodup_iff_getElem? {α : Type} {l : List α} :
    l.Nodup ↔ ∀ (i j : Nat) (a : α), l[i]? = some a → l[j]? = some a → i = j := by
  constructor
  · intro h i j a hi hj
    obtain ⟨hlt, rfl⟩ := List.getElem?_eq_some_iff.1 hi
    obtain ⟨hlt', heq⟩ := List.getElem?_eq_some_iff.1 hj
    exact (h.getElem_inj_iff.1 heq).symm
  · intro h
    rw [List.nodup_iff_injective_getElem]
    intro i j hij
    exact Fin.ext (h i j l[i] (List.getElem?_eq_getElem i.isLt)
      ((List.getElem?_eq_getElem j.isLt).trans (congrArg some hij.symm)))

namespace TypeTable

/-- The identities of the types in order of declaration. -/
def identities (table : TypeTable) : List String := table.definitions.map table.identity

theorem mem_types {type : PlacedType} :
    type ∈ table.types ↔ table.definitions[type.id]? = some type.definition := by
  rw [types, List.mem_map, ← List.mk_mem_zipIdx_iff_getElem?]
  constructor
  · rintro ⟨entry, hentry, rfl⟩
    exact hentry
  · exact fun h => ⟨_, h, rfl⟩

/-- The type with a number has that identity. -/
def Declares (table : TypeTable) (id : Nat) (identity : String) : Prop :=
  table.identities[id]? = some identity

theorem Declares.lt (h : table.Declares id identity) : id < table.length := by
  obtain ⟨hlt, -⟩ := List.getElem?_eq_some_iff.1 h
  rwa [identities, List.length_map] at hlt

/-- Two types do not have one identity. -/
theorem Declares.unique {other : Nat} (h : table.Declares id identity)
    (hother : table.Declares other identity) : id = other :=
  nodup_iff_getElem?.1 table.distinct id other identity h hother

theorem idOf?_eq_none : table.idOf? identity = none ↔ ∀ id, ¬ table.Declares id identity := by
  have hnone : table.idOf? identity = none ↔ identity ∉ table.identities := by
    rw [idOf?, List.findIdx?_eq_none_iff, identities, List.mem_map]
    simp
  rw [hnone, List.mem_iff_getElem?, not_exists]
  rfl

theorem idOf?_eq_some :
    table.idOf? identity = some id ↔ table.Declares id identity := by
  have hdeclares : ∀ found, table.idOf? identity = some found → table.Declares found identity := by
    intro found h
    obtain ⟨hlt, hfound, -⟩ := List.findIdx?_eq_some_iff_getElem.1 h
    rw [Declares, identities, List.getElem?_map, List.getElem?_eq_getElem hlt]
    exact congrArg some (of_decide_eq_true hfound)
  refine ⟨hdeclares id, fun h => ?_⟩
  cases hid : table.idOf? identity with
  | none => exact absurd h (idOf?_eq_none.1 hid id)
  | some found => rw [(hdeclares found hid).unique h]

/-- A name refers to the type with that identity, else to the one of the model class. -/
def Resolves (table : TypeTable) (name : String) (id : Nat) : Prop :=
  table.Declares id name ∨ ((∀ other, ¬ table.Declares other name) ∧
    table.Declares id (qualify table.classIdentifier name .modelClass))

theorem Resolves.lt (h : table.Resolves name id) : id < table.length := by
  rcases h with h | ⟨-, h⟩
  · exact h.lt
  · exact h.lt

theorem resolve?_eq_some :
    table.resolve? name = some id ↔ table.Resolves name id := by
  unfold resolve? Resolves
  cases hname : table.idOf? name with
  | some found =>
    have hfound := idOf?_eq_some.1 hname
    rw [Option.some_or, ← hname, idOf?_eq_some]
    exact (or_iff_left fun h => h.1 found hfound).symm
  | none =>
    have hnone := idOf?_eq_none.1 hname
    rw [Option.none_or, idOf?_eq_some, or_iff_right (hnone id), and_iff_right hnone]

theorem resolve?_eq_none :
    table.resolve? name = none ↔ ∀ id, ¬ table.Resolves name id := by
  rw [Option.eq_none_iff_forall_ne_some]
  exact forall_congr' fun id => not_congr resolve?_eq_some

end TypeTable

/-! ## Members by name -/

namespace TypeDefinition

variable {type : TypeDefinition}

/-- The names of the fields in order of declaration. -/
def fieldNames (type : TypeDefinition) : List String := type.fields.map (·.name)

theorem isSome_field? : (type.field? name).isSome ↔ name ∈ type.fieldNames := by
  rw [field?, List.find?_isSome]
  simp [fieldNames]

/-- The last of the fields with a name. -/
def LastNamed (type : TypeDefinition) (name : String) (field : Field) : Prop :=
  ∃ before after, type.fields = before ++ field :: after ∧ field.name = name ∧
    ∀ other ∈ after, other.name ≠ name

theorem field?_eq_some {field : Field} : type.field? name = some field ↔ type.LastNamed name field := by
  rw [field?, List.find?_eq_some_iff_append]
  simp only [decide_eq_true_eq, decide_eq_false_iff_not, Bool.not_eq_eq_eq_not, Bool.not_true]
  constructor
  · rintro ⟨hname, after, before, hfields, hafter⟩
    refine ⟨before.reverse, after.reverse, ?_, hname, fun other hother => ?_⟩
    · rw [← List.reverse_reverse type.fields, hfields]
      simp
    · exact hafter other (List.mem_reverse.1 hother)
  · rintro ⟨before, after, hfields, hname, hafter⟩
    refine ⟨hname, after.reverse, before.reverse, ?_, fun other hother => ?_⟩
    · rw [hfields]
      simp
    · exact hafter other (List.mem_reverse.1 hother)

/-- The members of a struct are its fields, and an enum has none. -/
theorem mem_fieldNames :
    name ∈ type.fieldNames ↔ type.hasMember name = true ∧ type.isEnum = false := by
  unfold fieldNames fields hasMember isEnum
  cases type.members with
  | fields list => simp [Members.names]
  | enumerators list => simp

theorem isEnum_of_length_pos (h : 0 < type.fields.length) : type.isEnum = false := by
  unfold fields at h
  unfold isEnum
  cases hmembers : type.members with
  | fields list => rfl
  | enumerators list =>
    rw [hmembers] at h
    cases h

end TypeDefinition

end ModelBinding
