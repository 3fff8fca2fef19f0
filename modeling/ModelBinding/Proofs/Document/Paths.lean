import ModelBinding.Document.Value
import ModelBinding.Proofs.Entries

/-!
# Paths into values

What stands where in a value. Two values with the same content differ at most in the order of the
entries of their tables, and if these are in order they are the same value.
-/
namespace ModelBinding

namespace Value

/-- A step into a table or into a sequence. -/
inductive Step where
  | key (name : String)
  | item (index : Nat)

/-- The value that a step leads to. -/
def child? : Value → Step → Option Value
  | .table entries, .key name => entries.lookup name
  | .sequence items, .item index => items[index]?
  | _, _ => none

/-- The value that a path leads to. -/
def at? : Value → List Step → Option Value
  | v, [] => some v
  | v, step :: rest => (v.child? step).bind fun w => w.at? rest

/-- A scalar itself, and of a sequence or a table only that it is one. -/
def outline : Value → Value
  | .sequence _ => .sequence []
  | .table _ => .table []
  | v => v

def IsScalar : Value → Prop
  | .null | .boolean _ | .integer _ | .unsigned _ | .float _ | .text _ => True
  | .sequence _ | .table _ => False

/-- What is seen at the end of a path. -/
def outlineAt? (v : Value) (path : List Step) : Option Value := (v.at? path).map outline

/-- The same is seen at the end of each path. -/
def SameContent (v w : Value) : Prop := ∀ path, v.outlineAt? path = w.outlineAt? path

/-- Every table in the value has the property. -/
def EveryTable (p : List (String × Value) → Prop) (v : Value) : Prop :=
  ∀ path entries, v.at? path = some (.table entries) → p entries

/-- No table in the value has a key twice, as in every document. -/
def DistinctKeys : Value → Prop := EveryTable fun entries => (entries.map Prod.fst).Nodup

/-- The keys of each table in the value are strictly increasing. -/
def Ordered : Value → Prop := EveryTable KeyOrdered

variable {v w : Value} {step : Step} {path : List Step} {p : List (String × Value) → Prop}

/-! ## Every table in a value -/

theorem EveryTable.child (h : v.EveryTable p) (hw : v.child? step = some w) : w.EveryTable p := by
  intro path entries hpath
  refine h (step :: path) entries ?_
  rw [at?, hw]
  exact hpath

theorem EveryTable.intro (hroot : ∀ entries, v = .table entries → p entries)
    (hchild : ∀ step w, v.child? step = some w → w.EveryTable p) : v.EveryTable p := by
  intro path entries hpath
  cases path with
  | nil => exact hroot entries (Option.some.inj hpath)
  | cons step rest =>
    obtain ⟨w, hw, hrest⟩ := Option.bind_eq_some_iff.1 hpath
    exact hchild step w hw rest entries hrest

theorem everyTable_table {entries : List (String × Value)} (hroot : p entries)
    (h : ∀ entry ∈ entries, entry.2.EveryTable p) : (table entries).EveryTable p := by
  refine .intro (fun _ heq => (table.inj heq) ▸ hroot) fun step w hw => ?_
  cases step with
  | key name => exact h (name, w) (mem_of_lookup hw)
  | item index => cases hw

theorem everyTable_sequence {items : List Value} :
    (sequence items).EveryTable p ↔ ∀ v ∈ items, v.EveryTable p := by
  constructor
  · intro h v hv
    obtain ⟨index, hindex⟩ := List.mem_iff_getElem?.1 hv
    have hchild : (sequence items).child? (.item index) = some v := hindex
    exact h.child hchild
  · refine fun h => .intro (fun _ heq => nomatch heq) fun step w hw => ?_
    cases step with
    | key name => cases hw
    | item index => exact h w (List.mem_of_getElem? hw)

theorem everyTable_scalar (h : v.IsScalar) : v.EveryTable p := by
  cases v with
  | sequence _ | table _ => exact h.elim
  | _ => exact .intro (fun _ heq => nomatch heq) fun step _ hw => by cases step <;> cases hw

theorem EveryTable.imp {q : List (String × Value) → Prop} (hpq : ∀ entries, p entries → q entries)
    (h : v.EveryTable p) : v.EveryTable q :=
  fun path entries hpath => hpq entries (h path entries hpath)

theorem distinctKeys_scalar (h : v.IsScalar) : v.DistinctKeys := everyTable_scalar h

@[simp] theorem distinctKeys_sequence {items : List Value} :
    (sequence items).DistinctKeys ↔ ∀ v ∈ items, v.DistinctKeys := everyTable_sequence

@[simp] theorem distinctKeys_table {entries : List (String × Value)} : (table entries).DistinctKeys ↔
    (entries.map Prod.fst).Nodup ∧ ∀ entry ∈ entries, entry.2.DistinctKeys := by
  constructor
  · intro h
    have hkeys : (entries.map Prod.fst).Nodup := h [] entries rfl
    refine ⟨hkeys, fun entry hentry => ?_⟩
    have hchild : (table entries).child? (.key entry.1) = some entry.2 :=
      lookup_eq_some_of_mem hkeys hentry
    exact h.child hchild
  · exact fun ⟨hkeys, hentries⟩ => everyTable_table hkeys hentries

theorem Ordered.distinctKeys (h : v.Ordered) : v.DistinctKeys :=
  EveryTable.imp (fun _ => KeyOrdered.nodup_keys) h

/-! ## The same content -/

theorem sizeOf_child? (h : v.child? step = some w) : sizeOf w < sizeOf v := by
  unfold child? at h
  split at h
  · rename_i entries name
    have hmem := List.sizeOf_lt_of_mem (mem_of_lookup h)
    simp only [Prod.mk.sizeOf_spec, table.sizeOf_spec] at hmem ⊢
    omega
  · have hmem := List.sizeOf_lt_of_mem (List.mem_of_getElem? h)
    simp only [sequence.sizeOf_spec]
    omega
  · cases h

theorem SameContent.outline_eq (h : v.SameContent w) : v.outline = w.outline :=
  Option.some.inj (h [])

theorem SameContent.isSome_child? (h : v.SameContent w) (step : Step) :
    (v.child? step).isSome = (w.child? step).isSome := by
  have hstep := congrArg Option.isSome (h [step])
  simpa [outlineAt?, at?] using hstep

theorem SameContent.child {a b : Value} (h : v.SameContent w) (hv : v.child? step = some a)
    (hw : w.child? step = some b) : a.SameContent b := by
  intro path
  have hpath := h (step :: path)
  unfold outlineAt? at hpath
  rw [at?, at?, hv, hw] at hpath
  exact hpath

/-- Ordered values are told by what they are and what is one step away. -/
theorem eq_of_child? (hv : v.Ordered) (hw : w.Ordered) (hroot : v.outline = w.outline)
    (hchild : ∀ step, v.child? step = w.child? step) : v = w := by
  cases v with
  | sequence items =>
    cases w with
    | sequence others => rw [List.ext_getElem? fun index => hchild (.item index)]
    | _ => cases hroot
  | table entries =>
    cases w with
    | table others =>
      rw [KeyOrdered.eq_of_lookup (hv [] entries rfl) (hw [] others rfl) fun key => hchild (.key key)]
    | _ => cases hroot
  | _ =>
    cases w with
    | sequence _ | table _ => cases hroot
    | _ => exact hroot

theorem SameContent.eq (hv : v.Ordered) (hw : w.Ordered) (h : v.SameContent w) : v = w := by
  induction hn : sizeOf v using Nat.strong_induction_on generalizing v w with
  | _ n ih =>
    refine eq_of_child? hv hw h.outline_eq fun step => ?_
    have hsome := h.isSome_child? step
    cases ha : v.child? step with
    | none =>
      rw [ha, Option.isSome_none, eq_comm, Option.isSome_eq_false_iff, Option.isNone_iff_eq_none]
        at hsome
      exact hsome.symm
    | some a =>
      rw [ha, Option.isSome_some] at hsome
      obtain ⟨b, hb⟩ := Option.isSome_iff_exists.1 hsome.symm
      rw [hb, ih (sizeOf a) (hn ▸ sizeOf_child? ha) (hv.child ha) (hw.child hb) (h.child ha hb) rfl]

end Value

end ModelBinding
