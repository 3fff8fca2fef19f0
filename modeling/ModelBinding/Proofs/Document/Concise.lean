import ModelBinding.Proofs.Document.Paths
import ModelBinding.Proofs.Json.Finite

/-!
# What a concise value leaves out

A value is filtered entry by entry. What is seen at the end of a path stays exactly if no entry on the
path is left out, and nothing that stays is changed.
-/
namespace ModelBinding

variable {mode : DumpMode} {plainMap : Bool}

/-! ## Entries that say nothing of their own -/

/-- An entry that a record can do without. -/
inductive IsIdle (key : String) (v : Value) : Prop where
  | derived (h : key.toList.head? = some '_')
  | null (h : v = .null)
  | emptyDoc (hkey : key = "doc") (h : v = .text "")

theorem isAuthoritative_iff {key : String} {v : Value} :
    isAuthoritative key v = true ↔ ¬ IsIdle key v := by
  unfold isAuthoritative
  split
  · exact iff_of_false Bool.false_ne_true (not_not.2 (.null rfl))
  · rw [Bool.and_eq_true, bne_iff_ne, bne_iff_ne]
    constructor
    · rintro ⟨hhead, hdoc⟩ (h | h | ⟨hkey, -⟩)
      · exact hhead h
      · cases h
      · exact hdoc hkey
    · exact fun h => ⟨fun hhead => h (.derived hhead), fun hkey => h (.emptyDoc hkey rfl)⟩
  · rename_i hnull hempty
    rw [bne_iff_ne]
    constructor
    · rintro hhead (h | h | ⟨-, h⟩)
      · exact hhead h
      · exact hnull h
      · exact hempty h
    · exact fun h hhead => h (.derived hhead)

theorem normalize_eq_null {v : Value} : normalize mode plainMap v = .null ↔ v = .null := by
  cases v with
  | _ => simp [normalize, Value.ofEntries]

theorem normalize_eq_text {v : Value} {s : String} :
    normalize mode plainMap v = .text s ↔ v = .text s := by
  cases v with
  | _ => simp [normalize, Value.ofEntries]

/-- What is in an entry does not matter, so filtering it first makes no difference. -/
theorem isIdle_normalize {key : String} {v : Value} :
    IsIdle key (normalize mode plainMap v) ↔ IsIdle key v := by
  constructor
  · rintro (h | h | ⟨hkey, h⟩)
    · exact .derived h
    · exact .null (normalize_eq_null.1 h)
    · exact .emptyDoc hkey (normalize_eq_text.1 h)
  · rintro (h | h | ⟨hkey, h⟩)
    · exact .derived h
    · exact .null (normalize_eq_null.2 h)
    · exact .emptyDoc hkey (normalize_eq_text.2 h)

namespace Value

variable {v w : Value} {step : Step} {path : List Step}

/-- Whether a step leads to a plain map, which is what certain keys of a table hold that is none. -/
def Step.toPlainMap (plainMap : Bool) : Step → Bool
  | .key name => !plainMap && plainMapKeys.contains name
  | .item _ => false

/-- The step leads to an idle entry of a table that is no plain map. -/
def Step.Omits (plainMap : Bool) (v : Value) : Step → Prop
  | .key name => plainMap = false ∧ IsIdle name v
  | .item _ => False

/-- No step of the path leads to an entry that is left out. -/
def Survives : (plainMap : Bool) → Value → List Step → Prop
  | _, _, [] => True
  | plainMap, v, step :: rest => ∀ w, v.child? step = some w →
    ¬ step.Omits plainMap w ∧ Survives (step.toPlainMap plainMap) w rest

/-! ## One step -/

/-- Whether what the step leads to stays. -/
def Step.keeps (mode : DumpMode) (plainMap : Bool) (v : Value) : Step → Bool
  | .key name => ModelBinding.keeps mode plainMap name v
  | .item _ => true

theorem Step.keeps_iff :
    step.keeps mode plainMap v = true ↔ (mode = .concise → ¬ step.Omits plainMap v) := by
  cases step with
  | key name =>
    cases mode with
    | concise => simp [keeps, ModelBinding.keeps, Omits, isAuthoritative_iff, or_iff_not_imp_left]
    | debug => simp [keeps, ModelBinding.keeps]
  | item index => simp [keeps, Omits]

theorem Step.omits_normalize {inner : Bool} :
    step.Omits plainMap (normalize mode inner v) ↔ step.Omits plainMap v := by
  cases step with
  | key name => simp only [Omits, isIdle_normalize]
  | item index => rfl

theorem normalizeItems_eq (items : List Value) :
    normalizeItems mode items = items.map (normalize mode false) := by
  induction items with
  | nil => rfl
  | cons v rest ih => rw [normalizeItems, ih, List.map_cons]

/-- What stays of an entry. -/
def normalizedEntry (mode : DumpMode) (plainMap : Bool) (key : String) (v : Value) : Option Value :=
  if ModelBinding.keeps mode plainMap key v then
    some (normalize mode (!plainMap && plainMapKeys.contains key) v)
  else none

theorem normalizeEntries_eq (entries : List (String × Value)) :
    normalizeEntries mode plainMap entries = keepEntries (normalizedEntry mode plainMap) entries := by
  induction entries with
  | nil => rfl
  | cons entry rest ih =>
    rw [keepEntries, List.filterMap_cons, ← keepEntries, ← ih, normalizeEntries]
    unfold normalizedEntry
    split_ifs
    · rfl
    · rfl

theorem outline_normalize : (normalize mode plainMap v).outline = v.outline := by
  cases v with
  | _ => rfl

/-- What one step leads to after filtering. -/
theorem child?_normalize (h : v.DistinctKeys) : (normalize mode plainMap v).child? step =
    (v.child? step).bind fun w =>
      if step.keeps mode plainMap w then some (normalize mode (step.toPlainMap plainMap) w)
      else none := by
  cases v with
  | table entries =>
    have hkeys : (entries.map Prod.fst).Nodup := h [] entries rfl
    cases step with
    | key name =>
      change (orderEntries (normalizeEntries mode plainMap entries)).lookup name = _
      rw [normalizeEntries_eq, lookup_orderEntries (nodup_keys_keepEntries hkeys),
        lookup_keepEntries name hkeys]
      rfl
    | item index => rfl
  | sequence items =>
    cases step with
    | key name => rfl
    | item index =>
      change (normalizeItems mode items)[index]? = items[index]?.bind fun w => _
      rw [normalizeItems_eq, List.getElem?_map, Option.map_eq_bind]
      rfl
  | _ => rfl

theorem child?_normalize_eq_some (h : v.DistinctKeys) :
    (normalize mode plainMap v).child? step = some w ↔ ∃ x, v.child? step = some x ∧
      step.keeps mode plainMap x = true ∧ normalize mode (step.toPlainMap plainMap) x = w := by
  rw [child?_normalize h, Option.bind_eq_some_iff]
  simp only [Option.ite_none_right_eq_some, Option.some.injEq]

/-! ## Along a path -/

theorem outlineAt?_cons {shown : Value} : v.outlineAt? (step :: path) = some shown ↔
    ∃ w, v.child? step = some w ∧ w.outlineAt? path = some shown := by
  rw [outlineAt?, at?, Option.map_bind, Option.bind_eq_some_iff]
  rfl

theorem survives_cons (hw : v.child? step = some w) : Survives plainMap v (step :: path) ↔
    ¬ step.Omits plainMap w ∧ Survives (step.toPlainMap plainMap) w path := by
  constructor
  · exact fun h => h w hw
  · intro h x hx
    cases hw.symm.trans hx
    exact h

/-- What is seen along a path stays, but in a concise value only if no step leads to what is left out. -/
theorem outlineAt?_normalize {shown : Value} (h : v.DistinctKeys) :
    (normalize mode plainMap v).outlineAt? path = some shown ↔
      v.outlineAt? path = some shown ∧ (mode = .concise → Survives plainMap v path) := by
  induction path generalizing plainMap v with
  | nil =>
    rw [outlineAt?, at?, Option.map_some, outline_normalize]
    exact (and_iff_left fun _ => trivial).symm
  | cons step rest ih =>
    rw [outlineAt?_cons, outlineAt?_cons]
    simp only [child?_normalize_eq_some h]
    constructor
    · rintro ⟨_, ⟨w, hw, hkeeps, rfl⟩, hshown⟩
      obtain ⟨hshown, hrest⟩ := (ih (h.child hw)).1 hshown
      exact ⟨⟨w, hw, hshown⟩, fun hmode =>
        (survives_cons hw).2 ⟨Step.keeps_iff.1 hkeeps hmode, hrest hmode⟩⟩
    · rintro ⟨⟨w, hw, hshown⟩, hsurvives⟩
      have hstep := fun hmode => (survives_cons hw).1 (hsurvives hmode)
      exact ⟨_, ⟨w, hw, Step.keeps_iff.2 fun hmode => (hstep hmode).1, rfl⟩,
        (ih (h.child hw)).2 ⟨hshown, fun hmode => (hstep hmode).2⟩⟩

theorem outlineAt?_normalize_concise {shown : Value} (h : v.DistinctKeys) :
    (normalize .concise plainMap v).outlineAt? path = some shown ↔
      v.outlineAt? path = some shown ∧ Survives plainMap v path := by
  rw [outlineAt?_normalize h, forall_prop_of_true rfl]

theorem ordered_normalize (h : v.DistinctKeys) : (normalize mode plainMap v).Ordered := by
  intro path entries hpath
  induction path generalizing plainMap v with
  | nil =>
    cases v with
    | table source =>
      cases hpath
      exact keyOrdered_orderEntries _
    | _ => cases hpath
  | cons step rest ih =>
    obtain ⟨_, hchild, hrest⟩ := Option.bind_eq_some_iff.1 hpath
    obtain ⟨w, hw, -, rfl⟩ := (child?_normalize_eq_some h).1 hchild
    exact ih (h.child hw) hrest

/-- Filtering before does not change what is left out of what is still there. -/
theorem survives_normalize {shown : Value} (h : v.DistinctKeys)
    (hshown : (normalize mode plainMap v).outlineAt? path = some shown) :
    Survives plainMap (normalize mode plainMap v) path ↔ Survives plainMap v path := by
  induction path generalizing plainMap v with
  | nil => rfl
  | cons step rest ih =>
    obtain ⟨_, hchild, hrest⟩ := outlineAt?_cons.1 hshown
    obtain ⟨w, hw, -, rfl⟩ := (child?_normalize_eq_some h).1 hchild
    rw [survives_cons hchild, survives_cons hw, Step.omits_normalize, ih (h.child hw) hrest]

/-- Filtering for a concise value makes up for whatever filtering there was before. -/
theorem normalize_concise_normalize (h : v.DistinctKeys) :
    normalize .concise plainMap (normalize mode plainMap v) = normalize .concise plainMap v := by
  have hordered : (normalize mode plainMap v).Ordered := ordered_normalize h
  refine SameContent.eq (ordered_normalize hordered.distinctKeys) (ordered_normalize h) fun path => ?_
  refine Option.ext fun shown => ?_
  rw [outlineAt?_normalize_concise hordered.distinctKeys, outlineAt?_normalize_concise h]
  constructor
  · rintro ⟨hshown, hsurvives⟩
    exact ⟨((outlineAt?_normalize h).1 hshown).1, (survives_normalize h hshown).1 hsurvives⟩
  · rintro ⟨hshown, hsurvives⟩
    have hnormalized : (normalize mode plainMap v).outlineAt? path = some shown :=
      (outlineAt?_normalize h).2 ⟨hshown, fun _ => hsurvives⟩
    exact ⟨hnormalized, (survives_normalize h hnormalized).2 hsurvives⟩

/--
A concise value shows of a value exactly what no idle entry of a record leads to, and a full one shows
all of it. Either way the keys of each table are in order, and a value that is filtered for a concise one
is not changed by having been filtered before.
-/
theorem normalize_omits_exactly (h : v.DistinctKeys) :
    (∀ path shown, (normalize .concise false v).outlineAt? path = some shown ↔
      v.outlineAt? path = some shown ∧ Survives false v path) ∧
    (normalize .debug false v).SameContent v ∧
    normalize .concise false (normalize .concise false v) = normalize .concise false v ∧
    normalize .concise false (normalize .debug false v) = normalize .concise false v ∧
    ∀ mode, (normalize mode false v).Ordered := by
  refine ⟨fun path shown => outlineAt?_normalize_concise h, fun path => Option.ext fun shown => ?_,
    normalize_concise_normalize h, normalize_concise_normalize h, fun mode => ordered_normalize h⟩
  rw [outlineAt?_normalize h, and_iff_left fun hmode => nomatch hmode]

/-- A plain map in a plain map, and an item that is null. -/
def nestedMaps : Value := .table [
  ("doc", .text ""),
  ("items", .sequence [.null, .table [("_id", .integer 1)]]),
  ("parameter", .table [
    ("_x", .null), ("parameter", .table [("_y", .integer 2), ("name", .text "")])])]

theorem nestedMaps_normalize : nestedMaps.DistinctKeys ∧
    normalize .concise false nestedMaps = .table [
      ("items", .sequence [.null, .table []]),
      ("parameter", .table [("_x", .null), ("parameter", .table [("name", .text "")])])] ∧
    Survives false nestedMaps [.key "parameter", .key "_x"] ∧
    ¬ Survives false nestedMaps [.key "parameter", .key "parameter", .key "_y"] ∧
    normalize .concise false (normalize .debug false nestedMaps) =
      normalize .concise false nestedMaps := by
  have hdistinct : nestedMaps.DistinctKeys := by
    have hnull : null.DistinctKeys := distinctKeys_scalar trivial
    have hinteger : ∀ i, (integer i).DistinctKeys := fun _ => distinctKeys_scalar trivial
    have htext : ∀ s, (text s).DistinctKeys := fun _ => distinctKeys_scalar trivial
    simpa [nestedMaps] using ⟨htext "", ⟨hnull, hinteger 1⟩, hnull, hinteger 2, htext ""⟩
  obtain ⟨hexact, -, -, hdebug, -⟩ := normalize_omits_exactly hdistinct
  refine ⟨hdistinct, rfl, ((hexact _ .null).1 rfl).2, fun h => ?_, hdebug⟩
  cases (hexact _ (.integer 2)).2 ⟨rfl, h⟩

/-! ## What texts hold -/

theorem inherited_ordered : Json.Inherited Ordered where
  null := everyTable_scalar trivial
  boolean _ := everyTable_scalar trivial
  integer _ := everyTable_scalar trivial
  unsigned _ := everyTable_scalar trivial
  finite _ _ := everyTable_scalar trivial
  text _ := everyTable_scalar trivial
  sequence _ := everyTable_sequence.2
  table entries h := everyTable_table (keyOrdered_orderEntries entries) fun entry hentry =>
    h entry (mem_orderEntries hentry)

/-- No table that a text holds has a key twice, whatever the text repeats. -/
theorem distinctKeys_of_parse? {text : String} (h : Json.parse? text = some v) : v.DistinctKeys :=
  (inherited_ordered.of_parse? h).distinctKeys

end Value

end ModelBinding
