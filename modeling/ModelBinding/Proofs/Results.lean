import Mathlib.Data.List.Forall2

/-!
# Results

When a computation that can fail succeeds.
-/
namespace ModelBinding

variable {ε ε' α β : Type}

theorem bind_eq_ok {x : Except ε α} {f : α → Except ε β} {b : β} :
    x >>= f = .ok b ↔ ∃ a, x = .ok a ∧ f a = .ok b := by
  cases x with
  | error e => simp [bind, Except.bind]
  | ok a => simp [bind, Except.bind]

theorem exists_error_iff {x : Except ε α} : (∃ e, x = .error e) ↔ ¬ ∃ a, x = .ok a := by
  cases x with
  | error e => simp
  | ok a => simp

theorem exists_map_error_iff {x : Except ε α} {f : α → β} :
    (∃ e, x.map f = .error e) ↔ ∃ e, x = .error e := by
  cases x with
  | error e => simp [Except.map]
  | ok a => simp [Except.map]

theorem exists_map_ok_iff {x : Except ε α} {f : α → β} :
    (∃ b, x.map f = .ok b) ↔ ∃ a, x = .ok a := by
  cases x with
  | error e => simp [Except.map]
  | ok a => simp [Except.map]

theorem exists_ok_iff {x : Except ε PUnit} : (∃ u, x = .ok u) ↔ x = .ok () :=
  ⟨fun ⟨_, hx⟩ => hx, fun hx => ⟨_, hx⟩⟩

/-- One check after another. -/
theorem andThen_eq_ok {x : Except ε PUnit} {y : PUnit → Except ε β} {b : β} :
    x >>= y = .ok b ↔ x = .ok () ∧ y () = .ok b := by
  rw [bind_eq_ok]
  exact ⟨fun ⟨_, hx, hy⟩ => ⟨hx, hy⟩, fun ⟨hx, hy⟩ => ⟨_, hx, hy⟩⟩

theorem discard_eq_ok {x : Except ε α} : Functor.discard x = .ok () ↔ ∃ a, x = .ok a := by
  cases x with
  | error e => simp [Functor.discard, Functor.mapConst, Except.map]
  | ok a => simp [Functor.discard, Functor.mapConst, Except.map]

theorem map_eq_ok {x : Except ε α} {f : α → β} {b : β} :
    x.map f = .ok b ↔ ∃ a, x = .ok a ∧ f a = b := by
  cases x with
  | error e => simp [Except.map]
  | ok a => simp [Except.map]

theorem map_eq_error {x : Except ε α} {f : α → β} {e : ε} : x.map f = .error e ↔ x = .error e := by
  cases x with
  | error e' => simp [Except.map]
  | ok a => simp [Except.map]

theorem mapError_eq_ok {x : Except ε α} {f : ε → ε'} {a : α} :
    x.mapError f = .ok a ↔ x = .ok a := by
  cases x with
  | error e => simp [Except.mapError]
  | ok a => simp [Except.mapError]

/-- A list of results succeeds if each of them does. -/
theorem mapM_eq_ok {f : α → Except ε β} {as : List α} {bs : List β} :
    as.mapM f = .ok bs ↔ List.Forall₂ (fun a b => f a = .ok b) as bs := by
  induction as generalizing bs with
  | nil => simp [pure, Except.pure, eq_comm]
  | cons a as ih =>
    rw [List.mapM_cons, bind_eq_ok]
    constructor
    · rintro ⟨b, hb, h⟩
      obtain ⟨bs', hbs, h⟩ := bind_eq_ok.1 h
      cases h
      exact .cons hb (ih.1 hbs)
    · rintro (_ | ⟨hb, hbs⟩)
      exact ⟨_, hb, bind_eq_ok.2 ⟨_, ih.2 hbs, rfl⟩⟩

/-- The first of a list for which something holds is its head, or it is the first of the others. -/
theorem exists_first_cons {p q : α → Prop} {a : α} {as : List α} :
    (∃ before x after, a :: as = before ++ x :: after ∧ (∀ y ∈ before, p y) ∧ q x) ↔
      q a ∨ p a ∧ ∃ before x after, as = before ++ x :: after ∧ (∀ y ∈ before, p y) ∧ q x := by
  constructor
  · rintro ⟨before, x, after, heq, hbefore, hx⟩
    cases before with
    | nil =>
      cases heq
      exact .inl hx
    | cons b before =>
      cases heq
      obtain ⟨ha, hbefore⟩ := List.forall_mem_cons.1 hbefore
      exact .inr ⟨ha, before, x, after, rfl, hbefore, hx⟩
  · rintro (ha | ⟨ha, before, x, after, rfl, hbefore, hx⟩)
    · exact ⟨[], a, as, rfl, List.forall_mem_nil _, ha⟩
    · exact ⟨a :: before, x, after, rfl, List.forall_mem_cons.2 ⟨ha, hbefore⟩, hx⟩

/-- A list of results fails with the first of them that does. -/
theorem mapM_eq_error {f : α → Except ε β} {as : List α} {e : ε} :
    as.mapM f = .error e ↔ ∃ before a after, as = before ++ a :: after ∧
      (∀ x ∈ before, ∃ b, f x = .ok b) ∧ f a = .error e := by
  induction as with
  | nil => simp [pure, Except.pure]
  | cons a as ih =>
    rw [List.mapM_cons, exists_first_cons, ← ih]
    cases f a with
    | error e' => simp [bind, Except.bind]
    | ok value =>
      cases as.mapM f with
      | error e' => simp [bind, Except.bind]
      | ok bs => simp [bind, Except.bind, pure, Except.pure]

theorem exists_of_mem_right {R : α → β → Prop} {as : List α} {bs : List β} {b : β}
    (h : List.Forall₂ R as bs) (hb : b ∈ bs) : ∃ a ∈ as, R a b := by
  induction h with
  | nil => cases hb
  | cons hhead _ ih =>
    rcases List.mem_cons.1 hb with rfl | hb
    · exact ⟨_, List.mem_cons_self, hhead⟩
    · obtain ⟨a, ha, hok⟩ := ih hb
      exact ⟨a, List.mem_cons_of_mem _ ha, hok⟩

theorem exists_of_mem_left {R : α → β → Prop} {as : List α} {bs : List β} {a : α}
    (h : List.Forall₂ R as bs) (ha : a ∈ as) : ∃ b ∈ bs, R a b :=
  exists_of_mem_right (R := flip R) (List.Forall₂.flip (R := flip R) h) ha

/-- A list of results fails if any of them does. -/
theorem exists_mapM_error_iff {f : α → Except ε β} {as : List α} :
    (∃ e, as.mapM f = .error e) ↔ ∃ a ∈ as, ∃ e, f a = .error e := by
  constructor
  · rintro ⟨e, h⟩
    obtain ⟨before, a, after, rfl, -, herror⟩ := mapM_eq_error.1 h
    exact ⟨a, List.mem_append_right _ List.mem_cons_self, e, herror⟩
  · rintro ⟨a, ha, herror⟩
    rw [exists_error_iff]
    rintro ⟨bs, hbs⟩
    obtain ⟨b, -, hb⟩ := exists_of_mem_left (mapM_eq_ok.1 hbs) ha
    exact exists_error_iff.1 herror ⟨b, hb⟩

/-- A list of results succeeds if none of them fails. -/
theorem exists_mapM_ok_iff {f : α → Except ε β} {as : List α} :
    (∃ bs, as.mapM f = .ok bs) ↔ ∀ a ∈ as, ∃ b, f a = .ok b := by
  rw [← not_iff_not, ← exists_error_iff, exists_mapM_error_iff]
  simp only [exists_error_iff, not_forall, exists_prop]

theorem exists_of_mem_mapM {f : α → Except ε β} {as : List α} {bs : List β} {b : β}
    (h : as.mapM f = .ok bs) (hb : b ∈ bs) : ∃ a ∈ as, f a = .ok b :=
  exists_of_mem_right (R := fun a b => f a = .ok b) (mapM_eq_ok.1 h) hb

theorem mem_of_mapM_eq_ok {f : α → Except ε β} {as : List α} {bs : List β} (h : as.mapM f = .ok bs)
    {b : β} : b ∈ bs ↔ ∃ a ∈ as, f a = .ok b := by
  refine ⟨exists_of_mem_mapM h, ?_⟩
  rintro ⟨a, ha, hok⟩
  obtain ⟨b', hb', hok'⟩ := exists_of_mem_left (mapM_eq_ok.1 h) ha
  rw [hok] at hok'
  cases hok'
  exact hb'

theorem forM_eq_ok {f : α → Except ε PUnit} {as : List α} :
    forM as f = .ok () ↔ ∀ a ∈ as, f a = .ok () := by
  induction as with
  | nil => simp [pure, Except.pure]
  | cons a as ih => rw [List.forM_cons, andThen_eq_ok, List.forall_mem_cons, ih]

theorem forM_eq_mapM {f : α → Except ε PUnit} {as : List α} :
    forM as f = (as.mapM f).map fun _ => () := by
  induction as with
  | nil => rfl
  | cons a as ih =>
    rw [List.forM_cons, List.mapM_cons, ih]
    cases f a with
    | error e => rfl
    | ok u => cases as.mapM f <;> rfl

/-- A list of checks fails with the first of them that does. -/
theorem forM_eq_error {f : α → Except ε PUnit} {as : List α} {e : ε} :
    forM as f = .error e ↔ ∃ before a after, as = before ++ a :: after ∧
      (∀ x ∈ before, f x = .ok ()) ∧ f a = .error e := by
  have hmap : forM as f = .error e ↔ as.mapM f = .error e := by
    rw [forM_eq_mapM]
    cases as.mapM f <;> simp [Except.map]
  rw [hmap, mapM_eq_error]
  simp only [exists_ok_iff]

end ModelBinding
