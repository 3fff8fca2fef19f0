import ModelBinding.Proofs.Toml.Strings

/-!
# Reading what was written in TOML: quoted texts and keys

A text takes the first of its forms that can hold it, and whichever that is, the reader tells the form
from the quotes at the front. A key is read part by part, up to what is no part of a key.
-/
namespace ModelBinding.Toml

variable {rest : List Char}

/-! ## Quoted texts -/

/-- What does not begin with three quotes is a text on one line. -/
theorem string_eq_shortString {s : List Char} (h : ∀ quote r, s ≠ quote :: quote :: quote :: r) :
    string s = shortString s := by
  unfold string
  split
  · exact absurd rfl (h _ _)
  · exact absurd rfl (h _ _)
  · rfl

theorem takes_string_basic (s : List Char) (hrest : rest.head? ≠ some '"') :
    string.Takes (basic s ++ rest) (String.ofList s) rest := by
  have hshort : string (basic s ++ rest) = shortString (basic s ++ rest) := by
    refine string_eq_shortString fun quote r h => ?_
    rw [basic, List.append_assoc, List.cons_append] at h
    obtain ⟨rfl, hbehind⟩ := List.cons.inj h
    cases s with
    | nil =>
      obtain ⟨-, hafter⟩ := List.cons.inj hbehind
      exact hrest (congrArg List.head? hafter)
    | cons c s =>
      rw [List.flatMap_cons, List.append_assoc] at hbehind
      exact head?_escapeChar_append c _ (by rw [hbehind]; rfl)
  rw [Reader.Takes, hshort]
  exact takes_shortString_basic s rest

theorem takes_string_literal {s : List Char} (h : ∀ c ∈ s, isPrintable c = true ∧ c ≠ '\'')
    (hrest : rest.head? ≠ some '\'') : string.Takes (literal s ++ rest) (String.ofList s) rest := by
  have hshort : string (literal s ++ rest) = shortString (literal s ++ rest) := by
    refine string_eq_shortString fun quote r hs => ?_
    rw [literal, List.append_assoc, List.cons_append] at hs
    obtain ⟨rfl, hbehind⟩ := List.cons.inj hs
    cases s with
    | nil =>
      obtain ⟨-, hafter⟩ := List.cons.inj hbehind
      exact hrest (congrArg List.head? hafter)
    | cons c s => exact (h c (by simp)).2 (List.cons.inj hbehind).1
  rw [Reader.Takes, hshort]
  exact takes_shortString_literal h rest

/-- The line break after the opening quotes is there if the text itself could begin with one. -/
theorem dropNewline_opening {s body : List Char}
    (h : '\n' ∉ s → ∀ c ∈ body.head?, c ≠ '\n' ∧ c ≠ '\r') : dropNewline (opening s ++ body) = body := by
  unfold opening
  split_ifs with hline
  · rfl
  · have hhead := h (by simpa using hline)
    cases body with
    | nil => rfl
    | cons c r =>
      obtain ⟨hnewline, hreturn⟩ := hhead c rfl
      simp [dropNewline, newline?, hnewline, hreturn]

/-- A text without a line break does not begin with one between its quotes either. -/
theorem head?_multilineBody {s body : List Char} (hline : '\n' ∉ s) :
    ∀ c ∈ (multilineBody 0 s ++ '"' :: body).head?, c ≠ '\n' ∧ c ≠ '\r' := by
  intro c hc
  cases s with
  | nil =>
    cases hc
    decide
  | cons d s =>
    have hd : d ≠ '\n' := fun h => hline (by simp [h])
    by_cases hquote : d = '"'
    · have he : c = '"' := by simpa [multilineBody, hquote] using hc.symm
      rw [he]
      decide
    · simp only [multilineBody, if_neg hquote, if_neg hd] at hc
      rcases escapeChar_cases d with ⟨tail, htail, -⟩ | ⟨hself, -, -, -, -, hreturn⟩
      · rw [htail] at hc
        cases hc
        decide
      · rw [hself] at hc
        cases hc
        exact ⟨hd, hreturn⟩

theorem takes_string_multilineBasic (s : List Char) (hrest : rest.head? ≠ some '"') :
    string.Takes (multilineBasic s ++ rest) (String.ofList s) rest := by
  let body := multilineBody 0 s ++ '"' :: '"' :: '"' :: rest
  have htext : multilineBasic s ++ rest = '"' :: '"' :: '"' :: (opening s ++ body) := by
    simp [multilineBasic, body]
  have hdrop : dropNewline (opening s ++ body) = body := dropNewline_opening head?_multilineBody
  have hpieces : Reader.Takes (pieces multilineBasicPiece) (dropNewline (opening s ++ body)) s rest := by
    rw [hdrop]
    exact takes_pieces_multilineBasic s (Nat.zero_le 2) hrest
  rw [htext]
  exact hpieces.further String.ofList _ rfl

theorem takes_string_multilineLiteral {s : List Char}
    (hs : ∀ c ∈ s, c = '\n' ∨ isPrintable c = true ∧ c ≠ '\r') (htriple : hasTriple '\'' s = false)
    (hrest : rest.head? ≠ some '\'') :
    string.Takes (multilineLiteral s ++ rest) (String.ofList s) rest := by
  let body := s ++ '\'' :: '\'' :: '\'' :: rest
  have htext : multilineLiteral s ++ rest = '\'' :: '\'' :: '\'' :: (opening s ++ body) := by
    simp [multilineLiteral, body]
  have hdrop : dropNewline (opening s ++ body) = body := by
    refine dropNewline_opening fun hline c hc => ?_
    cases s with
    | nil =>
      cases hc
      decide
    | cons d s =>
      cases hc
      have hd : c ≠ '\n' := fun h => hline (by simp [h])
      exact ⟨hd, ((hs c (by simp)).resolve_left hd).2⟩
  have hpieces : Reader.Takes (pieces multilineLiteralPiece) (dropNewline (opening s ++ body)) s rest := by
    rw [hdrop]
    exact takes_pieces_multilineLiteral (Nat.zero_le 2) htriple hs hrest
  rw [htext]
  exact hpieces.further String.ofList _ rfl

theorem isPrintable_of_not_isControl {c : Char} (h : isControl c = false) :
    c = '\n' ∨ isPrintable c = true ∧ c ≠ '\r' := by
  by_cases hline : c = '\n'
  · exact .inl hline
  · refine .inr ⟨?_, ?_⟩
    · by_cases htab : c = '\t'
      · rw [htab]
        rfl
      · have hcode : ¬ (c.toNat < 0x20 ∨ c.toNat = 0x7f) := by simpa [isControl, hline, htab] using h
        simp only [isPrintable, Bool.or_eq_true, Bool.and_eq_true, decide_eq_true_eq, bne_iff_ne]
        omega
    · rintro rfl
      cases h

/-- What can stand between single quotes on one line. -/
theorem forall_mem_literal {s : List Char} (hcontrol : ∀ c ∈ s, isControl c = false)
    (hline : '\n' ∉ s) (hquote : '\'' ∉ s) : ∀ c ∈ s, isPrintable c = true ∧ c ≠ '\'' := by
  intro c hc
  have hnewline : c ≠ '\n' := fun h => hline (h ▸ hc)
  exact ⟨((isPrintable_of_not_isControl (hcontrol c hc)).resolve_left hnewline).1, fun h => hquote (h ▸ hc)⟩

/-- A quoted text is read as the text. -/
theorem takes_string (s : List Char) (hrest : ∀ c ∈ rest.head?, c ≠ '"' ∧ c ≠ '\'') :
    string.Takes (quoted s ++ rest) (String.ofList s) rest := by
  have hbasic : rest.head? ≠ some '"' := fun h => (hrest _ h).1 rfl
  have hliteral : rest.head? ≠ some '\'' := fun h => (hrest _ h).2 rfl
  unfold quoted
  dsimp only
  split_ifs with h1 h2 h3 h4 h5
  · exact takes_string_basic s hbasic
  · simp only [Bool.and_eq_true, Bool.not_eq_true', List.any_eq_false, Bool.not_eq_true,
      List.contains_eq_mem, decide_eq_false_iff_not] at h2
    exact takes_string_literal (forall_mem_literal h2.1.1 h2.2 h2.1.2) hliteral
  · exact takes_string_multilineBasic s hbasic
  · simp only [Bool.and_eq_true, Bool.not_eq_true', List.any_eq_false, Bool.not_eq_true] at h4
    exact takes_string_multilineLiteral (fun c hc => isPrintable_of_not_isControl (h4.1 c hc)) h4.2 hliteral
  · exact takes_string_multilineBasic s hbasic
  · exact takes_string_basic s hbasic

/-! ## Keys -/

theorem takes_simpleKey_bare {name : List Char} (hne : name ≠ []) (hname : ∀ c ∈ name, isBare c = true)
    (hrest : ∀ c ∈ rest.head?, isBare c = false) :
    simpleKey.Takes (name ++ rest) (String.ofList name) rest := by
  obtain ⟨htake, hdrop⟩ := span_append hname hrest
  unfold Reader.Takes simpleKey
  split
  · rename_i hrun _ _
    exact absurd (htake.symm.trans hrun) hne
  · rename_i hrun _ _
    rw [htake] at hrun
    cases hrun
    exact ⟨_, rfl, rfl, hdrop⟩

/-- A key that is no bare word is a text on one line. -/
theorem takes_simpleKey_quoted {s : List Char} {name : String} (hhead : ∀ c ∈ s.head?, isBare c = false)
    (h : shortString.Takes s name rest) : simpleKey.Takes s name rest := by
  have htake : s.takeWhile isBare = [] := by
    cases s with
    | nil => rfl
    | cons c r => exact List.takeWhile_cons_of_neg (by simp [hhead c rfl])
  unfold Reader.Takes simpleKey
  split
  · exact h
  · rename_i hrun _ _
    rw [htake] at hrun
    cases hrun

theorem takes_simpleKey (name : String) (hrest : ∀ c ∈ rest.head?, isBare c = false) :
    simpleKey.Takes (keyPart name ++ rest) name rest := by
  have hbasic : simpleKey.Takes (basic name.toList ++ rest) (String.ofList name.toList) rest :=
    takes_simpleKey_quoted (by simp [basic]; decide) (takes_shortString_basic name.toList rest)
  rw [← String.ofList_toList (s := name)]
  unfold keyPart
  dsimp only
  rw [String.toList_ofList]
  split_ifs with h1 h2 h3
  · simp only [Bool.and_eq_true, Bool.not_eq_true', List.isEmpty_eq_false_iff, List.all_eq_true] at h1
    exact takes_simpleKey_bare h1.1 h1.2 hrest
  · exact hbasic
  · simp only [Bool.and_eq_true, Bool.not_eq_true', List.any_eq_false, Bool.or_eq_true, beq_iff_eq, not_or,
      Bool.not_eq_true, List.contains_eq_mem, decide_eq_false_iff_not] at h3
    have hchars := forall_mem_literal (fun c hc => (h3.1 c hc).1) (fun hc => (h3.1 _ hc).2 rfl) h3.2
    exact takes_simpleKey_quoted (by simp [literal]; decide) (takes_shortString_literal hchars rest)
  · exact hbasic

theorem skipBlank_cons {c : Char} (h : isBlank c = false) (s : List Char) : skipBlank (c :: s) = c :: s := by
  simp [skipBlank, h]

theorem keyPart_eq_cons (name : String) :
    ∃ c r, keyPart name = c :: r ∧ (isBare c = true ∨ c = '"' ∨ c = '\'') := by
  unfold keyPart
  dsimp only
  split_ifs with h1 h2 h3
  · simp only [Bool.and_eq_true, Bool.not_eq_true', List.isEmpty_eq_false_iff, List.all_eq_true] at h1
    obtain ⟨c, r, hcr⟩ := List.exists_cons_of_ne_nil h1.1
    exact ⟨c, r, hcr, .inl (h1.2 c (by simp [hcr]))⟩
  · exact ⟨_, _, rfl, .inr (.inl rfl)⟩
  · exact ⟨_, _, rfl, .inr (.inr rfl)⟩
  · exact ⟨_, _, rfl, .inr (.inl rfl)⟩

/-- A part of a key begins with what is in a bare word, or with a quote. -/
theorem head?_keyPart_ne {d : Char} (hbare : isBare d = false) (hquote : d ≠ '"' ∧ d ≠ '\'') (name : String)
    (s : List Char) : (keyPart name ++ s).head? ≠ some d := by
  obtain ⟨c, r, hcr, hc⟩ := keyPart_eq_cons name
  rw [hcr]
  intro h
  cases Option.some.inj h
  rcases hc with hc | hc | hc
  · rw [hbare] at hc
    cases hc
  · exact hquote.1 hc
  · exact hquote.2 hc

theorem skipBlank_keyPart (name : String) (s : List Char) :
    skipBlank (keyPart name ++ s) = keyPart name ++ s := by
  have hspace := head?_keyPart_ne (d := ' ') rfl (by decide) name s
  have htab := head?_keyPart_ne (d := '\t') rfl (by decide) name s
  obtain ⟨c, r, hcr, -⟩ := keyPart_eq_cons name
  rw [hcr, List.cons_append] at hspace htab ⊢
  refine skipBlank_cons ?_ _
  have hne : ¬ (c = ' ' ∨ c = '\t') :=
    not_or.2 ⟨fun h => hspace (congrArg some h), fun h => htab (congrArg some h)⟩
  simpa [isBlank] using hne

theorem takes_key_last {s : List Char} {name : String} (h : simpleKey.Takes s name rest)
    (hrest : (skipBlank rest).head? ≠ some '.') : Reader.Takes key s [name] rest := by
  obtain ⟨⟨_, _, hlt⟩, hs, rfl, rfl⟩ := h
  unfold Reader.Takes
  rw [key, hs]
  dsimp only
  split
  · rename_i hpoint
    rw [hpoint] at hrest
    exact absurd rfl hrest
  · exact ⟨_, rfl, rfl, rfl⟩

theorem takes_key_more {s after next : List Char} {name : String} {path : List String}
    (h : simpleKey.Takes s name after) (hafter : skipBlank after = '.' :: next)
    (hmore : Reader.Takes key (skipBlank next) path rest) : Reader.Takes key s (name :: path) rest := by
  obtain ⟨⟨_, _, hlt⟩, hs, rfl, rfl⟩ := h
  obtain ⟨⟨_, _, hlt'⟩, hs', rfl, rfl⟩ := hmore
  unfold Reader.Takes
  rw [key, hs]
  dsimp only at hafter ⊢
  split
  · rename_i hpoint
    rw [hafter] at hpoint
    cases hpoint
    rw [hs']
    exact ⟨_, rfl, rfl, rfl⟩
  · rename_i hpoint
    exact absurd hafter (hpoint _)

theorem keyPath_cons (name : String) (path : List String) :
    keyPath (name :: path) = keyPart name ++ path.flatMap fun part => '.' :: keyPart part := by
  induction path generalizing name with
  | nil => simp [keyPath]
  | cons next path ih =>
    have hnext : keyPath (name :: next :: path) = keyPart name ++ '.' :: keyPath (next :: path) := by
      simp [keyPath, List.intercalate_cons_cons]
    rw [hnext, ih, List.flatMap_cons, List.cons_append]

/-- What follows a key does not go on with it. -/
structure EndsKey (rest : List Char) : Prop where
  bare : ∀ c ∈ rest.head?, isBare c = false
  point : (skipBlank rest).head? ≠ some '.'

/-- A path is read as its parts. -/
theorem takes_key (name : String) (path : List String) (hrest : EndsKey rest) :
    Reader.Takes key (keyPath (name :: path) ++ rest) (name :: path) rest := by
  rw [keyPath_cons, List.append_assoc]
  induction path generalizing name with
  | nil => exact takes_key_last (takes_simpleKey name hrest.bare) hrest.point
  | cons next path ih =>
    rw [List.flatMap_cons, List.cons_append, List.cons_append, List.append_assoc]
    have hpoint : ∀ c ∈ ('.' :: (keyPart next ++ ((path.flatMap fun part => '.' :: keyPart part) ++
        rest))).head?, isBare c = false := by
      intro c hc
      cases hc
      rfl
    refine takes_key_more (takes_simpleKey name hpoint) rfl ?_
    rw [skipBlank_keyPart]
    exact ih next

end ModelBinding.Toml
