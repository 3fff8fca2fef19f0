import Mathlib.Tactic
import ModelBinding.TextMap

/-!
# Ordered entries

Looking up after entering, and the normal form of a list of entries: entries that are in order
already stay as they are, and a list whose keys are distinct says the same before and after it is
put in order.
-/
namespace ModelBinding

variable {α β : Type}

theorem lookup_cons_ite (k : String) (head : String × α) (rest : List (String × α)) :
    (head :: rest).lookup k = if k = head.1 then some head.2 else rest.lookup k := by
  rw [List.lookup_cons]
  by_cases hk : k = head.1
  · simp [hk]
  · simp [beq_false_of_ne hk, hk]

theorem lookup_insertEntry (key k : String) (value : α) (entries : List (String × α)) :
    (insertEntry key value entries).lookup k =
      if k = key then some value else entries.lookup k := by
  induction entries with
  | nil => rw [insertEntry, lookup_cons_ite]
  | cons head rest ih =>
    by_cases hlt : key < head.1
    · rw [insertEntry, if_pos hlt, lookup_cons_ite]
    · by_cases heq : key = head.1
      · rw [insertEntry, if_neg hlt, if_pos heq, lookup_cons_ite, lookup_cons_ite, ← heq]
        split_ifs <;> rfl
      · rw [insertEntry, if_neg hlt, if_neg heq, lookup_cons_ite, lookup_cons_ite, ih]
        by_cases hk : k = key
        · rw [if_pos hk, if_pos hk, if_neg fun he => heq (hk ▸ he)]
        · rw [if_neg hk, if_neg hk]

/-- Of several entries with a key the last counts. -/
theorem lookup_foldl_insertEntry (k : String) (entries start : List (String × α)) :
    (entries.foldl (fun acc entry => insertEntry entry.1 entry.2 acc) start).lookup k =
      (entries.reverse.lookup k).or (start.lookup k) := by
  induction entries generalizing start with
  | nil => rfl
  | cons head rest ih =>
    rw [List.foldl_cons, ih, lookup_insertEntry, List.reverse_cons, List.lookup_append,
      lookup_cons_ite, List.lookup_nil, Option.or_assoc]
    split_ifs <;> rfl

theorem lookup_eq_none_of_notMem {k : String} {entries : List (String × α)}
    (h : k ∉ entries.map Prod.fst) : entries.lookup k = none := by
  rw [List.lookup_eq_none_iff]
  intro entry hmem
  rw [bne_iff_ne]
  exact fun he => h (he ▸ List.mem_map_of_mem hmem)

theorem mem_of_lookup {κ : Type} [BEq κ] [LawfulBEq κ] {k : κ} {a : α} {entries : List (κ × α)}
    (h : entries.lookup k = some a) : (k, a) ∈ entries := by
  obtain ⟨before, after, rfl, -⟩ := List.lookup_eq_some_iff.1 h
  simp

theorem lookup_eq_some_of_mem {k : String} {a : α} {entries : List (String × α)}
    (h : (entries.map Prod.fst).Nodup) (hmem : (k, a) ∈ entries) : entries.lookup k = some a := by
  induction entries with
  | nil => cases hmem
  | cons head rest ih =>
    obtain ⟨hhead, hrest⟩ := List.nodup_cons.1 h
    rw [lookup_cons_ite]
    rcases List.mem_cons.1 hmem with rfl | hmem
    · rw [if_pos rfl]
    · rw [if_neg fun hk => hhead (List.mem_map.2 ⟨(k, a), hmem, hk⟩), ih hrest hmem]

theorem isSome_lookup {k : String} {entries : List (String × α)} :
    (entries.lookup k).isSome = true ↔ k ∈ entries.map Prod.fst := by
  refine ⟨fun h => ?_, fun h => ?_⟩
  · obtain ⟨a, ha⟩ := Option.isSome_iff_exists.1 h
    exact List.mem_map_of_mem (mem_of_lookup ha)
  · by_contra hnone
    rw [Option.not_isSome_iff_eq_none, List.lookup_eq_none_iff] at hnone
    obtain ⟨entry, hentry, rfl⟩ := List.mem_map.1 h
    simpa using hnone entry hentry

theorem lookup_reverse {k : String} {entries : List (String × α)}
    (h : (entries.map Prod.fst).Nodup) : entries.reverse.lookup k = entries.lookup k := by
  induction entries with
  | nil => rfl
  | cons head rest ih =>
    obtain ⟨hhead, hrest⟩ := List.nodup_cons.1 h
    rw [List.reverse_cons, List.lookup_append, ih hrest, lookup_cons_ite, lookup_cons_ite]
    by_cases hk : k = head.1
    · rw [hk, lookup_eq_none_of_notMem hhead, if_pos rfl, if_pos rfl, Option.none_or]
    · rw [if_neg hk, if_neg hk, List.lookup_nil, Option.or_none]

theorem lookup_orderEntries {k : String} {entries : List (String × α)}
    (h : (entries.map Prod.fst).Nodup) : (orderEntries entries).lookup k = entries.lookup k := by
  rw [orderEntries, lookup_foldl_insertEntry, lookup_reverse h, List.lookup_nil, Option.or_none]

theorem KeyOrdered.nodup_keys {entries : List (String × α)} (h : KeyOrdered entries) :
    (entries.map Prod.fst).Nodup := by
  unfold List.Nodup
  rw [List.pairwise_map]
  exact h.imp fun {a b} hlt (heq : a.1 = b.1) => String.lt_irrefl b.1 (heq ▸ hlt)

theorem insertEntry_of_forall_lt {key : String} {value : α} {entries : List (String × α)}
    (h : ∀ entry ∈ entries, entry.1 < key) : insertEntry key value entries = entries ++ [(key, value)] := by
  induction entries with
  | nil => rfl
  | cons head rest ih =>
    have hhead := h head (by simp)
    have hlt : ¬ key < head.1 := fun hlt => String.lt_irrefl _ (String.lt_trans hlt hhead)
    have hne : ¬ key = head.1 := fun he => String.lt_irrefl _ (he ▸ hhead)
    rw [insertEntry, if_neg hlt, if_neg hne, ih fun entry hmem => h entry (by simp [hmem]),
      List.cons_append]

theorem foldl_insertEntry_of_keyOrdered {entries start : List (String × α)}
    (h : KeyOrdered (start ++ entries)) :
    entries.foldl (fun acc entry => insertEntry entry.1 entry.2 acc) start = start ++ entries := by
  induction entries generalizing start with
  | nil => rw [List.foldl_nil, List.append_nil]
  | cons head rest ih =>
    have hlast : ∀ entry ∈ start, entry.1 < head.1 := fun entry hmem =>
      (List.pairwise_append.1 h).2.2 entry hmem head (by simp)
    have happend : start ++ head :: rest = start ++ [head] ++ rest := by simp
    rw [List.foldl_cons, insertEntry_of_forall_lt hlast, happend]
    rw [happend] at h
    exact ih h

theorem orderEntries_of_keyOrdered {entries : List (String × α)} (h : KeyOrdered entries) :
    orderEntries entries = entries :=
  @foldl_insertEntry_of_keyOrdered α entries [] h

/-- Order is a matter of the keys. -/
theorem keyOrdered_map {entries : List (String × α)} (f : String × α → β) (h : KeyOrdered entries) :
    KeyOrdered (entries.map fun entry => (entry.1, f entry)) :=
  List.pairwise_map.2 h

theorem lookup_map_snd (f : α → β) (key : String) (entries : List (String × α)) :
    (entries.map fun entry => (entry.1, f entry.2)).lookup key = (entries.lookup key).map f := by
  induction entries with
  | nil => rfl
  | cons entry rest ih =>
    rw [List.map_cons, lookup_cons_ite, lookup_cons_ite, ih]
    split_ifs <;> rfl

theorem map_eq_self_iff {f : α → α} {as : List α} : as.map f = as ↔ ∀ a ∈ as, f a = a := by
  have h := List.map_inj_left (l := as) (f := f) (g := id)
  rwa [List.map_id] at h

/-! ## Keeping some entries -/

section Keep

variable {keep : String → α → Option β} {entries : List (String × α)}

/-- What is kept of each entry, under its key. -/
def keepEntries (keep : String → α → Option β) (entries : List (String × α)) : List (String × β) :=
  entries.filterMap fun entry => (keep entry.1 entry.2).map (entry.1, ·)

theorem mem_keepEntries {key : String} {b : β} :
    (key, b) ∈ keepEntries keep entries ↔ ∃ a, (key, a) ∈ entries ∧ keep key a = some b := by
  simp only [keepEntries, List.mem_filterMap, Option.map_eq_some_iff]
  constructor
  · rintro ⟨⟨_, a⟩, hmem, _, hkeep, heq⟩
    cases heq
    exact ⟨a, hmem, hkeep⟩
  · rintro ⟨a, hmem, hkeep⟩
    exact ⟨(key, a), hmem, b, hkeep, rfl⟩

/-- What holds between the keys of any two entries holds of those that are kept. -/
theorem pairwise_keepEntries {r : String → String → Prop}
    (h : entries.Pairwise fun a b => r a.1 b.1) :
    (keepEntries keep entries).Pairwise fun a b => r a.1 b.1 := by
  refine List.pairwise_filterMap.2 (h.imp fun {a b} hab first hfirst second hsecond => ?_)
  obtain ⟨_, -, rfl⟩ := Option.map_eq_some_iff.1 hfirst
  obtain ⟨_, -, rfl⟩ := Option.map_eq_some_iff.1 hsecond
  exact hab

theorem keyOrdered_keepEntries (h : KeyOrdered entries) : KeyOrdered (keepEntries keep entries) :=
  pairwise_keepEntries h

theorem nodup_keys_keepEntries (h : (entries.map Prod.fst).Nodup) :
    ((keepEntries keep entries).map Prod.fst).Nodup :=
  List.pairwise_map.2 (pairwise_keepEntries (List.pairwise_map.1 h))

theorem lookup_keepEntries (key : String) (h : (entries.map Prod.fst).Nodup) :
    (keepEntries keep entries).lookup key = (entries.lookup key).bind (keep key) := by
  induction entries with
  | nil => rfl
  | cons head rest ih =>
    obtain ⟨hhead, hrest⟩ := List.nodup_cons.1 h
    rw [keepEntries, List.filterMap_cons, ← keepEntries, lookup_cons_ite]
    by_cases hkey : key = head.1
    · subst hkey
      rw [if_pos rfl, Option.bind_some]
      rw [lookup_eq_none_of_notMem hhead, Option.bind_none] at ih
      cases keep head.1 head.2 with
      | none => exact ih hrest
      | some b => simp
    · rw [if_neg hkey, ← ih hrest]
      cases keep head.1 head.2 with
      | none => rfl
      | some b => simp [lookup_cons_ite, hkey]

theorem keepEntries_eq_map {f : α → β} (h : ∀ entry ∈ entries, keep entry.1 entry.2 = some (f entry.2)) :
    keepEntries keep entries = entries.map fun entry => (entry.1, f entry.2) := by
  rw [keepEntries, ← List.filterMap_eq_map]
  refine List.filterMap_congr fun entry hentry => ?_
  rw [h entry hentry]
  rfl

end Keep

/-! ## Putting entries in order -/

theorem mem_orderEntries {entry : String × α} {entries : List (String × α)}
    (h : entry ∈ orderEntries entries) : entry ∈ entries := by
  have hfold : ∀ {rest start : List (String × α)},
      entry ∈ rest.foldl (fun acc e => insertEntry e.1 e.2 acc) start →
        entry ∈ rest ∨ entry ∈ start := by
    intro rest
    induction rest with
    | nil => exact fun h => .inr h
    | cons head rest ih =>
      intro start hmem
      rcases ih hmem with hmem | hmem
      · exact .inl (by simp [hmem])
      · rcases mem_insertEntry hmem with rfl | hmem
        · exact .inl (by simp)
        · exact .inr hmem
  exact (hfold h).resolve_right (by simp)

theorem perm_insertEntry {key : String} {value : α} {entries : List (String × α)}
    (h : key ∉ entries.map Prod.fst) : (insertEntry key value entries).Perm ((key, value) :: entries) := by
  induction entries with
  | nil => exact .refl _
  | cons head rest ih =>
    rw [List.map_cons, List.mem_cons, not_or] at h
    rw [insertEntry, if_neg h.1]
    split_ifs with hlt
    · exact .refl _
    · exact ((ih h.2).cons head).trans (.swap (key, value) head rest)

/-- Putting entries with distinct keys in order loses none of them. -/
theorem perm_orderEntries {entries : List (String × α)} (h : (entries.map Prod.fst).Nodup) :
    (orderEntries entries).Perm entries := by
  have hfold : ∀ {rest start : List (String × α)}, ((start ++ rest).map Prod.fst).Nodup →
      (rest.foldl (fun acc e => insertEntry e.1 e.2 acc) start).Perm (start ++ rest) := by
    intro rest
    induction rest with
    | nil => exact fun _ => by rw [List.foldl_nil, List.append_nil]
    | cons head rest ih =>
      intro start hnodup
      have hmiddle : (head :: (start ++ rest)).Perm (start ++ head :: rest) := List.perm_middle.symm
      have hnew : head.1 ∉ start.map Prod.fst := by
        intro hmem
        rw [List.map_append] at hnodup
        exact List.disjoint_of_nodup_append hnodup hmem (by simp)
      have hinsert : (insertEntry head.1 head.2 start ++ rest).Perm (head :: (start ++ rest)) :=
        (perm_insertEntry hnew).append_right rest
      have hkeys := ((hinsert.trans hmiddle).map Prod.fst).nodup_iff.2 hnodup
      exact (ih hkeys).trans (hinsert.trans hmiddle)
  exact @hfold entries [] h

/-- There is one order of entries with distinct keys. -/
theorem orderEntries_of_perm {entries ordered : List (String × α)} (h : entries.Perm ordered)
    (hordered : KeyOrdered ordered) : orderEntries entries = ordered := by
  have hkeys : (entries.map Prod.fst).Nodup := (h.map Prod.fst).nodup_iff.2 hordered.nodup_keys
  refine List.Perm.eq_of_pairwise (fun a b _ _ hab hba => ?_) (keyOrdered_orderEntries entries) hordered
    ((perm_orderEntries hkeys).trans h)
  exact absurd (String.lt_trans hab hba) (String.lt_irrefl a.1)

/-- Ordered entries are told by looking them up. -/
theorem KeyOrdered.eq_of_lookup {entries others : List (String × α)}
    (hentries : KeyOrdered entries) (hothers : KeyOrdered others)
    (h : ∀ key, entries.lookup key = others.lookup key) : entries = others := by
  have hmem : ∀ entry, entry ∈ entries ↔ entry ∈ others := by
    intro (key, a)
    constructor
    · intro hentry
      exact mem_of_lookup (h key ▸ lookup_eq_some_of_mem hentries.nodup_keys hentry)
    · intro hentry
      exact mem_of_lookup (h key ▸ lookup_eq_some_of_mem hothers.nodup_keys hentry)
  have hperm : entries.Perm others :=
    (List.perm_ext_iff_of_nodup (.of_map _ hentries.nodup_keys) (.of_map _ hothers.nodup_keys)).2 hmem
  rw [← orderEntries_of_keyOrdered hentries]
  exact orderEntries_of_perm hperm hothers

theorem mem_keys_orderEntries {k : String} {entries : List (String × α)} :
    k ∈ (orderEntries entries).map Prod.fst ↔ k ∈ entries.map Prod.fst := by
  rw [← isSome_lookup, orderEntries, lookup_foldl_insertEntry, List.lookup_nil, Option.or_none,
    isSome_lookup, List.map_reverse, List.mem_reverse]

theorem mem_sortDistinct {text : String} {texts : List String} :
    text ∈ sortDistinct texts ↔ text ∈ texts := by
  rw [sortDistinct, mem_keys_orderEntries, List.map_map]
  exact iff_of_eq (congrArg (text ∈ ·) (List.map_id texts))

theorem pairwise_sortDistinct (texts : List String) : (sortDistinct texts).Pairwise (· < ·) :=
  List.pairwise_map.2 (keyOrdered_orderEntries _)

theorem filter_sortDistinct_congr {keep : String → Bool} {texts others : List String}
    (h : ∀ text, keep text = true → (text ∈ texts ↔ text ∈ others)) :
    (sortDistinct texts).filter keep = (sortDistinct others).filter keep := by
  refine ((pairwise_sortDistinct texts).filter _).eq_of_mem_iff ((pairwise_sortDistinct others).filter _) ?_
  intro text
  rw [List.mem_filter, List.mem_filter, mem_sortDistinct, mem_sortDistinct]
  exact and_congr_left (h text)

namespace TextMap

theorem ext {a b : TextMap α} (h : a.entries = b.entries) : a = b := by
  cases a
  cases b
  congr

/-- The map with its values changed. -/
def map (f : α → β) (map : TextMap α) : TextMap β :=
  ⟨map.entries.map fun entry => (entry.1, f entry.2), keyOrdered_map (fun entry => f entry.2) map.ordered⟩

theorem map_id (map : TextMap α) : map.map id = map :=
  ext (List.map_id map.entries)

theorem map_eq_self_iff {f : α → α} {map : TextMap α} : map.map f = map ↔ ∀ a ∈ map.values, f a = a := by
  have hentries : map.map f = map ↔ (map.map f).entries = map.entries := ⟨congrArg entries, ext⟩
  rw [hentries, TextMap.map, ModelBinding.map_eq_self_iff, values, List.forall_mem_map]
  exact forall₂_congr fun entry _ => ⟨fun h => congrArg Prod.snd h, fun h => Prod.ext rfl h⟩

/-- The map of its own entries. -/
theorem ofList_entries (map : TextMap α) : ofList map.entries = map :=
  ext (orderEntries_of_keyOrdered map.ordered)

end TextMap

end ModelBinding
