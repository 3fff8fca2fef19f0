import Mathlib.Data.List.Infix
import Mathlib.Data.List.Nodup
import ModelBinding.Model.Role

/-!
# Roles and the ends of names

The suffixes of the roles are all different and hold no underscore, so a suffix that ends a name begins
after its last underscore. At most one role ends a name, though suffixes end in one another, and in which
order the roles are searched has no say in what a name stands for.
-/
namespace ModelBinding.Role

variable {role other : Role} {roles others : List Role} {name : String} {s t chars : List Char}

/-! ## The text after the last underscore -/

/-- The name ends in an underscore and the suffix. -/
def Ends (name suffix : String) : Prop := ∃ stem : String, name = stem ++ "_" ++ suffix

theorem ends_iff {suffix : String} : Ends name suffix ↔ '_' :: suffix.toList <:+ name.toList := by
  constructor
  · rintro ⟨stem, rfl⟩
    exact ⟨stem.toList, by simp⟩
  · rintro ⟨stem, hname⟩
    refine ⟨String.ofList stem, String.toList_inj.1 ?_⟩
    rw [← hname]
    simp

theorem marks_iff : role.marks name = true ↔ Ends name role.suffix := by
  rw [ends_iff, marks, List.isSuffixOf_iff_suffix]

/-- Of two ends that begin with an underscore and hold no other, neither goes further back. -/
theorem eq_of_suffix (hs : '_' :: s <:+ chars) (ht : '_' :: t <:+ chars) (hs' : '_' ∉ s)
    (ht' : '_' ∉ t) : s = t := by
  have hend : ∀ {s t : List Char}, '_' ∉ t → '_' :: s <:+ '_' :: t → s = t := by
    intro s t ht h
    rcases List.suffix_cons_iff.1 h with h | h
    · exact List.tail_eq_of_cons_eq h
    · exact absurd (h.subset List.mem_cons_self) ht
  rcases List.suffix_or_suffix_of_suffix hs ht with h | h
  · exact hend ht' h
  · exact (hend hs' h).symm

theorem exists_suffix (h : '_' ∈ chars) : ∃ s, '_' :: s <:+ chars ∧ '_' ∉ s := by
  induction chars with
  | nil => cases h
  | cons c chars ih =>
    by_cases hlater : '_' ∈ chars
    · obtain ⟨s, hs, hs'⟩ := ih hlater
      exact ⟨s, hs.trans (List.suffix_cons c chars), hs'⟩
    · obtain rfl := (List.mem_cons.1 h).resolve_right hlater
      exact ⟨chars, List.suffix_refl _, hlater⟩

theorem exists_ends (h : '_' ∈ name.toList) : ∃ suffix, Ends name suffix ∧ '_' ∉ suffix.toList := by
  obtain ⟨s, hs, hs'⟩ := exists_suffix h
  exact ⟨String.ofList s, ends_iff.2 (by rwa [String.toList_ofList]), by rwa [String.toList_ofList]⟩

theorem mem_of_ends {suffix : String} (h : Ends name suffix) : '_' ∈ name.toList :=
  (ends_iff.1 h).subset List.mem_cons_self

/-! ## Searching for a role -/

/-- Roles that the text after the last underscore of a name tells from each other. -/
structure Separated (roles : List Role) : Prop where
  nodup : (roles.map fun role => role.suffix).Nodup
  plain : ∀ role ∈ roles, '_' ∉ role.suffix.toList

theorem separated_all : Separated all where
  nodup := by decide
  plain := by decide

theorem Separated.perm (h : Separated roles) (hperm : others.Perm roles) : Separated others where
  nodup := (hperm.map _).nodup_iff.2 h.nodup
  plain role hrole := h.plain role (hperm.mem_iff.1 hrole)

theorem Separated.eq_of_ends (h : Separated roles) (hrole : role ∈ roles) {suffix : String}
    (hends : Ends name role.suffix) (hends' : Ends name suffix) (hplain : '_' ∉ suffix.toList) :
    role.suffix = suffix :=
  String.toList_inj.1 (eq_of_suffix (ends_iff.1 hends) (ends_iff.1 hends') (h.plain role hrole) hplain)

/-- No two places of the list hold roles that end one name. -/
theorem Separated.place_unique (h : Separated roles) {i j : Nat} (hi : roles[i]? = some role)
    (hj : roles[j]? = some other) (hends : Ends name role.suffix) (hends' : Ends name other.suffix) : i = j := by
  have hrole := List.mem_of_getElem? hi
  have hother := List.mem_of_getElem? hj
  have hsuffix : role.suffix = other.suffix := h.eq_of_ends hrole hends hends' (h.plain other hother)
  have hlt : i < (roles.map fun role => role.suffix).length := by
    rw [List.length_map]
    exact (List.getElem?_eq_some_iff.1 hi).1
  refine (List.getElem?_inj hlt h.nodup).1 ?_
  rw [List.getElem?_map, List.getElem?_map, hi, hj, Option.map_some, Option.map_some, hsuffix]

theorem Separated.describeBy_of_ends (h : Separated roles) (hrole : role ∈ roles)
    (hends : Ends name role.suffix) : describeBy roles name = role.description := by
  unfold describeBy
  split
  · rename_i found hfound
    have hmem := List.mem_of_find?_eq_some hfound
    have hmarks := List.find?_some hfound
    have hsuffix := h.eq_of_ends hmem (marks_iff.1 hmarks) hends (h.plain role hrole)
    rw [List.inj_on_of_nodup_map h.nodup hmem hrole hsuffix]
  · rename_i hnone
    exact absurd (marks_iff.2 hends) (List.find?_eq_none.1 hnone role hrole)

theorem describeBy_of_not_ends (h : ∀ role ∈ roles, ¬ Ends name role.suffix) :
    describeBy roles name = "Unknown" := by
  have hnone : roles.find? (·.marks name) = none :=
    List.find?_eq_none.2 fun role hrole hmarks => h role hrole (marks_iff.1 hmarks)
  rw [describeBy, hnone]

theorem Separated.describeBy_perm (h : Separated roles) (hperm : others.Perm roles) (name : String) :
    describeBy others name = describeBy roles name := by
  by_cases hends : ∃ role ∈ roles, Ends name role.suffix
  · obtain ⟨role, hrole, hends⟩ := hends
    rw [h.describeBy_of_ends hrole hends, (h.perm hperm).describeBy_of_ends (hperm.mem_iff.2 hrole) hends]
  · have hnone : ∀ role ∈ roles, ¬ Ends name role.suffix := fun role hrole h => hends ⟨role, hrole, h⟩
    rw [describeBy_of_not_ends hnone,
      describeBy_of_not_ends fun role hrole => hnone role (hperm.mem_iff.1 hrole)]

/--
A name ends in the suffix of at most one role. It stands for what the role of the text after its last
underscore stands for, and for nothing known without such a role or an underscore, in whatever order the
roles are searched.
-/
theorem describe_by_ending (name : String) :
    (∀ (i j : Nat) (role other : Role), all[i]? = some role → all[j]? = some other →
      (∃ stem : String, name = stem ++ "_" ++ role.suffix) →
      (∃ stem : String, name = stem ++ "_" ++ other.suffix) → i = j) ∧
    ('_' ∈ name.toList → ∃ stem ending : String, name = stem ++ "_" ++ ending ∧ '_' ∉ ending.toList ∧
      (∀ role ∈ all, role.suffix = ending → describe name = role.description) ∧
      ((∀ role ∈ all, role.suffix ≠ ending) → describe name = "Unknown")) ∧
    ('_' ∉ name.toList → describe name = "Unknown") ∧
    ∀ roles : List Role, roles.Perm all → describeBy roles name = describe name := by
  refine ⟨fun i j role other => separated_all.place_unique, fun h => ?_, fun h => ?_, fun roles hperm => ?_⟩
  · obtain ⟨ending, hends, hplain⟩ := exists_ends h
    obtain ⟨stem, hname⟩ := id hends
    refine ⟨stem, ending, hname, hplain, ?_, fun hother => ?_⟩
    · rintro role hrole rfl
      exact separated_all.describeBy_of_ends hrole hends
    · exact describeBy_of_not_ends fun role hrole hends' =>
        hother role hrole (separated_all.eq_of_ends hrole hends' hends hplain)
  · exact describeBy_of_not_ends fun role _ hends => h (mem_of_ends hends)
  · exact separated_all.describeBy_perm hperm name

/-- The roles in the opposite order tell the same of a name that ends in the suffix of one of them. -/
theorem describe_by_ending_reversed :
    (∃ stem : String, "Pendulum_InstP" = stem ++ "_" ++ "InstP") ∧ all.reverse.Perm all ∧
      describeBy all.reverse "Pendulum_InstP" = describe "Pendulum_InstP" :=
  ⟨⟨"Pendulum", by decide⟩, List.reverse_perm all,
    (describe_by_ending "Pendulum_InstP").2.2.2 all.reverse (List.reverse_perm all)⟩

/-- The suffix of another role ends that of the role that the name stands for. -/
example : describe "Pendulum_InstP" = "Parameter arguments for the system" := by decide

end ModelBinding.Role
