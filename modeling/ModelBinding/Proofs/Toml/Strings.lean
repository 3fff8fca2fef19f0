import Mathlib.Tactic
import ModelBinding.Document.Toml.Writer
import ModelBinding.Proofs.Document.Taking

/-!
# Reading what was written in TOML: strings and keys

Each form of a string is read as the text that it was written for. In the forms with triple quotes a run
of quotes is read at once, so what is read is told by how many quotes are pending: fewer than three at any
place inside the text, and three more at its end.
-/
namespace ModelBinding.Toml

/-! ## Characters -/

theorem hexDigit?_hexUpper (n : Nat) : hexDigit? (hexUpper n) = some (n % 16) := by
  have hall : ∀ d < 16, hexDigit? (Nat.digitChar d).toUpper = some d := by decide
  exact hall (n % 16) (Nat.mod_lt n (by omega))

/-- The escape of a character without a short one is read as that character. -/
theorem escape_control {c : Char} (h : c.toNat < 0x100) (s : List Char) :
    escape ('u' :: '0' :: '0' :: hexUpper (c.toNat / 16) :: hexUpper c.toNat :: s) = some (c, s) := by
  have hdigits : hexDigits? 0 4 ('0' :: '0' :: hexUpper (c.toNat / 16) :: hexUpper c.toNat :: s) =
      some (c.toNat, s) := by
    have hzero : hexDigit? '0' = some 0 := rfl
    simp only [hexDigits?, hzero, hexDigit?_hexUpper]
    congr 2
    omega
  have hvalue : scalarValue? c.toNat = some c := by
    rw [scalarValue?, if_pos (show c.toNat.isValidChar from c.valid), Char.ofNat_toNat]
  simp [escape, codePoint, hdigits, hvalue]

/-- A character is written as an escape, or it stands for itself. -/
theorem escapeChar_cases (c : Char) :
    (∃ tail, escapeChar c = '\\' :: tail ∧ (∀ s, escape (tail ++ s) = some (c, s)) ∧
      ∀ s, foldedLine? (tail ++ s) = none) ∨
    (escapeChar c = [c] ∧ isPrintable c = true ∧ c ≠ '"' ∧ c ≠ '\\' ∧ c ≠ '\n' ∧ c ≠ '\r') := by
  unfold escapeChar
  split
  case h_8 =>
    rename_i hnewline _ hreturn hquote hbackslash
    split_ifs with h
    · refine .inl ⟨_, rfl, escape_control (by omega), fun s => rfl⟩
    · obtain ⟨hlow, hdelete⟩ := not_or.1 h
      have hprintable : isPrintable c = true := by simp [isPrintable, hdelete, Nat.le_of_not_lt hlow]
      exact .inr ⟨rfl, hprintable, hquote, hbackslash, hnewline, hreturn⟩
  all_goals exact .inl ⟨_, rfl, fun s => rfl, fun s => rfl⟩

theorem takes_escapePiece (first : Char) {c : Char} {tail s : List Char} (h : escape tail = some (c, s)) :
    escapePiece.Takes (first :: tail) (.more [c]) s := by
  unfold Reader.Takes escapePiece
  dsimp only
  split
  · simp_all
  · rename_i d r' h'
    rw [h] at h'
    cases h'
    exact ⟨_, rfl, rfl, rfl⟩

/-! ## Strings on one line -/

theorem takes_basicPiece (c : Char) (s : List Char) :
    basicPiece.Takes (escapeChar c ++ s) (.more [c]) s := by
  rcases escapeChar_cases c with ⟨tail, htail, hescape, -⟩ | ⟨hself, hprintable, hquote, hbackslash, -⟩
  · rw [htail]
    exact takes_escapePiece '\\' (hescape s)
  · rw [hself]
    simp [Reader.Takes, basicPiece, hquote, hbackslash, hprintable]

theorem takes_pieces_basic (s rest : List Char) :
    Reader.Takes (pieces basicPiece) (s.flatMap escapeChar ++ '"' :: rest) s rest := by
  induction s with
  | nil => exact takes_pieces_last ⟨_, rfl, rfl, rfl⟩
  | cons c s ih =>
    rw [List.flatMap_cons, List.append_assoc]
    exact takes_pieces_more (takes_basicPiece c _) ih

theorem takes_pieces_literal {s : List Char} (h : ∀ c ∈ s, isPrintable c = true ∧ c ≠ '\'')
    (rest : List Char) : Reader.Takes (pieces literalPiece) (s ++ '\'' :: rest) s rest := by
  induction s with
  | nil => exact takes_pieces_last ⟨_, rfl, rfl, rfl⟩
  | cons c s ih =>
    obtain ⟨⟨hprintable, hquote⟩, hs⟩ := List.forall_mem_cons.1 h
    have hpiece : literalPiece.Takes (c :: (s ++ '\'' :: rest)) (.more [c]) (s ++ '\'' :: rest) := by
      simp [Reader.Takes, literalPiece, hprintable, hquote]
    exact takes_pieces_more hpiece (ih hs)

theorem takes_shortString_basic (s rest : List Char) :
    shortString.Takes (basic s ++ rest) (String.ofList s) rest := by
  have h := takes_pieces_basic s rest
  have htext : basic s ++ rest = '"' :: (s.flatMap escapeChar ++ '"' :: rest) := by simp [basic]
  rw [htext]
  exact h.through String.ofList rfl

theorem takes_shortString_literal {s : List Char} (h : ∀ c ∈ s, isPrintable c = true ∧ c ≠ '\'')
    (rest : List Char) : shortString.Takes (literal s ++ rest) (String.ofList s) rest := by
  have htext : literal s ++ rest = '\'' :: (s ++ '\'' :: rest) := by simp [literal]
  rw [htext]
  exact (takes_pieces_literal h rest).through String.ofList rfl

/-! ## Strings over several lines -/

section Quotes

variable {quote : Char} {rest : List Char}

theorem quotesPiece_run (n : Nat) (h : rest.head? ≠ some quote) :
    ∃ shorter, quotesPiece quote (List.replicate (n + 1) quote ++ rest) =
      if n < 2 then some ⟨.more (List.replicate (n + 1) quote), rest, shorter⟩
      else if n < 5 then some ⟨.last (List.replicate (n - 2) quote), rest, shorter⟩ else none := by
  have hquotes : ∀ c ∈ List.replicate (n + 1) quote, (c == quote) = true := fun c hc =>
    beq_iff_eq.2 (List.eq_of_mem_replicate hc)
  have hother : ∀ c ∈ rest.head?, (c == quote) = false := fun c hc =>
    beq_false_of_ne fun he => h (he ▸ hc)
  obtain ⟨htake, hdrop⟩ := span_append hquotes hother
  refine ⟨by simp, ?_⟩
  unfold quotesPiece
  split
  · rename_i hrun _ _
    rw [htake] at hrun
    cases hrun
  · rename_i hrun _ _
    rw [htake, List.replicate_succ] at hrun
    cases hrun
    have hrest : rest.dropWhile (· == quote) = rest := by simpa using hdrop
    simp [List.replicate_succ, hrest]

/-- Fewer than three quotes belong to the text. -/
theorem takes_quotesPiece_more {n : Nat} (hn : 0 < n) (hn' : n ≤ 2) (h : rest.head? ≠ some quote) :
    (quotesPiece quote).Takes (List.replicate n quote ++ rest) (.more (List.replicate n quote)) rest := by
  obtain ⟨n, rfl⟩ := Nat.exists_eq_succ_of_ne_zero (Nat.ne_of_gt hn)
  obtain ⟨shorter, hpiece⟩ := quotesPiece_run n h
  rw [if_pos (by omega)] at hpiece
  exact ⟨_, hpiece, rfl, rfl⟩

/-- Three quotes end the text, and up to two before them belong to it. -/
theorem takes_quotesPiece_last {n : Nat} (hn : n ≤ 2) (h : rest.head? ≠ some quote) :
    (quotesPiece quote).Takes (List.replicate (n + 3) quote ++ rest) (.last (List.replicate n quote))
      rest := by
  obtain ⟨shorter, hpiece⟩ := quotesPiece_run (n + 2) h
  rw [if_neg (by omega), if_pos (by omega)] at hpiece
  exact ⟨_, hpiece, rfl, rfl⟩

/-- Quotes that are pending belong to the text if anything else comes before a third one. -/
theorem takes_pieces_pending {piece : Reader Piece} {quote : Char}
    (hpiece : ∀ r, piece (quote :: r) = quotesPiece quote (quote :: r)) {n : Nat} (hn : n ≤ 2)
    {after more rest : List Char} (hafter : after.head? ≠ some quote)
    (h : Reader.Takes (pieces piece) after more rest) :
    Reader.Takes (pieces piece) (List.replicate n quote ++ after) (List.replicate n quote ++ more) rest := by
  cases n with
  | zero => exact h
  | succ n =>
    refine takes_pieces_more ?_ h
    have hquotes := takes_quotesPiece_more (Nat.succ_pos n) hn hafter
    rw [List.replicate_succ, List.cons_append] at hquotes ⊢
    rwa [Reader.Takes, hpiece]

/-- Three quotes end the text with those that are pending. -/
theorem takes_pieces_closing {piece : Reader Piece} {quote : Char}
    (hpiece : ∀ r, piece (quote :: r) = quotesPiece quote (quote :: r)) {n : Nat} (hn : n ≤ 2)
    {rest : List Char} (hrest : rest.head? ≠ some quote) :
    Reader.Takes (pieces piece) (List.replicate n quote ++ quote :: quote :: quote :: rest)
      (List.replicate n quote) rest := by
  have htext : List.replicate n quote ++ quote :: quote :: quote :: rest =
      List.replicate (n + 3) quote ++ rest := by
    rw [← List.replicate_append_replicate, List.append_assoc]
    rfl
  have hquotes := takes_quotesPiece_last hn hrest
  rw [htext]
  refine takes_pieces_last ?_
  rw [List.replicate_succ, List.cons_append] at hquotes ⊢
  rwa [Reader.Takes, hpiece]

theorem replicate_append_cons (n : Nat) (c : Char) (s : List Char) :
    List.replicate n c ++ c :: s = List.replicate (n + 1) c ++ s := by
  rw [List.replicate_succ', List.append_assoc]
  rfl

end Quotes

section Multiline

variable {rest : List Char}

theorem takes_linePiece {c : Char} (h : c = '\n' ∨ isPrintable c = true ∧ c ≠ '\r') (s : List Char) :
    linePiece.Takes (c :: s) (.more [c]) s := by
  rcases h with rfl | ⟨hprintable, hreturn⟩
  · exact ⟨_, rfl, rfl, rfl⟩
  · by_cases hc : c = '\n'
    · rw [hc]
      exact ⟨_, rfl, rfl, rfl⟩
    · have hnone : newline? (c :: s) = none := by simp [newline?, hc, hreturn]
      unfold Reader.Takes linePiece
      split
      · simp_all
      · simp [hprintable]

theorem multilineBasicPiece_quote (r : List Char) :
    multilineBasicPiece ('"' :: r) = quotesPiece '"' ('"' :: r) := rfl

theorem multilineLiteralPiece_quote (r : List Char) :
    multilineLiteralPiece ('\'' :: r) = quotesPiece '\'' ('\'' :: r) := rfl

theorem takes_multilineBasicPiece_escape {c : Char} {tail s : List Char} (h : escape tail = some (c, s))
    (hfold : foldedLine? tail = none) : multilineBasicPiece.Takes ('\\' :: tail) (.more [c]) s := by
  have hescape := takes_escapePiece '\\' h
  unfold Reader.Takes multilineBasicPiece
  simp only [if_neg (by decide : ¬ '\\' = '"'), if_true]
  split
  · simp_all
  · exact hescape

theorem takes_multilineBasicPiece (c : Char) (s : List Char) :
    multilineBasicPiece.Takes (escapeChar c ++ s) (.more [c]) s := by
  rcases escapeChar_cases c with ⟨tail, htail, hescape, hfold⟩ |
    ⟨hself, hprintable, hquote, hbackslash, -, hreturn⟩
  · rw [htail]
    exact takes_multilineBasicPiece_escape (hescape s) (hfold s)
  · rw [hself]
    have hline := takes_linePiece (.inr ⟨hprintable, hreturn⟩) s
    simpa only [Reader.Takes, List.singleton_append, multilineBasicPiece, if_neg hquote, if_neg hbackslash]
      using hline

theorem head?_escapeChar_append (c : Char) (s : List Char) : (escapeChar c ++ s).head? ≠ some '"' := by
  rcases escapeChar_cases c with ⟨tail, htail, -⟩ | ⟨hself, -, hquote, -⟩
  · rw [htail]
    exact fun h => nomatch h
  · rw [hself]
    exact fun h => hquote (Option.some.inj h)

/-- What is read after some quotes that are pending is those quotes and the text. -/
theorem takes_pieces_multilineBasic (s : List Char) {n : Nat} (hn : n ≤ 2)
    (hrest : rest.head? ≠ some '"') :
    Reader.Takes (pieces multilineBasicPiece)
      (List.replicate n '"' ++ (multilineBody n s ++ '"' :: '"' :: '"' :: rest))
      (List.replicate n '"' ++ s) rest := by
  induction s generalizing n with
  | nil =>
    rw [List.append_nil]
    exact takes_pieces_closing multilineBasicPiece_quote hn hrest
  | cons c s ih =>
    have hmore := ih (Nat.zero_le 2)
    simp only [List.replicate_zero, List.nil_append] at hmore
    rw [multilineBody]
    split_ifs with hquote hfull hline
    · subst hquote hfull
      refine takes_pieces_pending multilineBasicPiece_quote hn (fun h => nomatch h) ?_
      exact takes_pieces_more (takes_multilineBasicPiece_escape rfl rfl) hmore
    · subst hquote
      rw [List.cons_append, replicate_append_cons, replicate_append_cons]
      exact ih (by omega)
    · subst hline
      refine takes_pieces_pending multilineBasicPiece_quote hn (fun h => nomatch h) ?_
      have hpiece : multilineBasicPiece.Takes ('\n' :: (multilineBody 0 s ++ '"' :: '"' :: '"' :: rest))
          (.more ['\n']) (multilineBody 0 s ++ '"' :: '"' :: '"' :: rest) := takes_linePiece (.inl rfl) _
      exact takes_pieces_more hpiece hmore
    · rw [List.append_assoc]
      refine takes_pieces_pending multilineBasicPiece_quote hn (head?_escapeChar_append c _) ?_
      exact takes_pieces_more (takes_multilineBasicPiece c _) hmore

theorem hasTriple_append {quote : Char} (before : List Char) {s : List Char}
    (h : hasTriple quote (before ++ s) = false) : hasTriple quote s = false := by
  induction before with
  | nil => exact h
  | cons a before ih =>
    apply ih
    rw [List.cons_append] at h
    match before ++ s, h with
    | [], _ => rfl
    | [b], _ => rfl
    | b :: c :: s, h => exact (Bool.or_eq_false_iff.1 h).2

theorem takes_pieces_multilineLiteral {s : List Char} {n : Nat} (hn : n ≤ 2)
    (htriple : hasTriple '\'' (List.replicate n '\'' ++ s) = false)
    (hs : ∀ c ∈ s, c = '\n' ∨ isPrintable c = true ∧ c ≠ '\r') (hrest : rest.head? ≠ some '\'') :
    Reader.Takes (pieces multilineLiteralPiece)
      (List.replicate n '\'' ++ (s ++ '\'' :: '\'' :: '\'' :: rest))
      (List.replicate n '\'' ++ s) rest := by
  induction s generalizing n with
  | nil =>
    rw [List.append_nil]
    exact takes_pieces_closing multilineLiteralPiece_quote hn hrest
  | cons c s ih =>
    obtain ⟨hc, hrun⟩ := List.forall_mem_cons.1 hs
    by_cases hquote : c = '\''
    · subst hquote
      rw [replicate_append_cons] at htriple
      have hfull : n ≠ 2 := by
        rintro rfl
        cases htriple
      rw [List.cons_append, replicate_append_cons, replicate_append_cons]
      exact ih (by omega) htriple hrun
    · refine takes_pieces_pending multilineLiteralPiece_quote hn (fun h => hquote (Option.some.inj h)) ?_
      have hpiece : multilineLiteralPiece.Takes (c :: (s ++ '\'' :: '\'' :: '\'' :: rest)) (.more [c])
          (s ++ '\'' :: '\'' :: '\'' :: rest) := by
        have hline := takes_linePiece hc (s ++ '\'' :: '\'' :: '\'' :: rest)
        simpa only [Reader.Takes, multilineLiteralPiece, if_neg hquote] using hline
      refine takes_pieces_more hpiece (ih (Nat.zero_le 2) ?_ hrun)
      exact hasTriple_append (List.replicate n '\'' ++ [c]) (by simpa using htriple)

end Multiline

end ModelBinding.Toml
