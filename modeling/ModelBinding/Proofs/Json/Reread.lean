import ModelBinding.Document.Json.Reader
import ModelBinding.Document.Json.Writer
import ModelBinding.Proofs.Number.Scaling

/-!
# Numbers that are read back

What a reader takes the text of a finite number for. A reader that rounds to nearest gives the number
back; one with best effort gives back a finite number, and numbers of few digits as they are.
-/
namespace ModelBinding

theorem digitsValue_lt {digits : List Char} (h : AllDigits digits) : digitsValue digits < 10 ^ digits.length := by
  induction digits with
  | nil => exact Nat.one_pos
  | cons c rest ih =>
    have hc : c.toNat ≤ '9'.toNat := by
      have hdigit := h c List.mem_cons_self
      simp only [Char.isDigit, Bool.and_eq_true, decide_eq_true_eq] at hdigit
      exact hdigit.2
    have hc : c.toNat - '0'.toNat < 10 := by
      have : '9'.toNat - '0'.toNat = 9 := rfl
      omega
    have hrest := ih fun d hd => h d (List.mem_cons_of_mem c hd)
    rw [Numeral.digitsValue_cons, List.length_cons, Nat.pow_succ]
    nlinarith

theorem NumberLayout.length_whole_parts {layout : NumberLayout} {d : Decimal}
    (h : layout.isPositional (leading d) = true → leading d ≤ 15) : (layout.parts d).whole.length ≤ 16 := by
  unfold parts
  split_ifs with hpositional
  · have hleading := h hpositional
    unfold positionalParts
    split_ifs with hneg hshort
    · simp
    · simp only [List.length_append, List.length_replicate]
      omega
    · simp only [List.length_take]
      omega
  · simp only [scientificParts, List.length_take]
    omega

namespace Json

/-- What is read where a number is written. What is not finite is not written as a number. -/
def reread (rounding : Rounding) : Binary64 → Binary64
  | .finite negative rank =>
    ((numbers.parts (Binary64.shortest numbers.tie rank)).numeral negative).rounded rounding
  | x => x

/-- A reader that rounds to nearest gives every number back. -/
theorem reread_nearest (x : Binary64) : reread .nearest x = x := by
  cases x with
  | finite negative rank => exact NumberLayout.value_parts_shortest numbers negative rank
  | _ => rfl

/-- The number 31.245270191439438, which best effort takes for the next greater one, 31.24527019143944. -/
def drifting : Binary64 := .finite false ⟨4629487979381582466, by decide⟩

theorem reread_drifting : reread .bestEffort drifting = .finite false ⟨4629487979381582467, by decide⟩ := by
  decide +kernel

/-- The numerals of the greatest numbers do not leave the range either. -/
theorem bestRank_last (k : Fin 3) : ((numbers.parts (Binary64.shortest numbers.tie
    (Binary64.finiteCount - 1 - k))).numeral false).bestRank < Binary64.finiteCount := by
  decide +kernel +revert

/-- What is written is read as a finite number of the same sign. -/
theorem exists_reread (rounding : Rounding) (negative : Bool) (rank : Fin Binary64.finiteCount) :
    ∃ rank', reread rounding (.finite negative rank) = .finite negative rank' := by
  cases rounding with
  | nearest => exact ⟨rank, reread_nearest _⟩
  | bestEffort =>
    let numeral := (numbers.parts (Binary64.shortest numbers.tie rank)).numeral negative
    have hlength : numeral.whole.length ≤ 16 :=
      NumberLayout.length_whole_parts fun h => (of_decide_eq_true h).2
    have hlt : numeral.bestRank < Binary64.finiteCount := by
      by_cases hsafe : (rank : Nat) ≤ Binary64.safeRank
      · have hvalue : Binary64.ofRank negative (Binary64.decimalRank (digitsValue (numeral.whole ++ numeral.fraction))
            (numeral.exponent - numeral.fraction.length)) = .ofRank negative rank := by
          rw [Binary64.ofRank_of_lt rank.isLt, ← NumberLayout.value_parts_shortest numbers negative rank]
          exact (Numeral.toBinary64_eq_ofRank numeral).symm
        have hrank := Binary64.ofRank_inj rank.isLt hvalue
        refine Numeral.bestRank_lt ?_ (hrank.trans_le hsafe)
        have hdigits : digitsValue numeral.whole < 10 ^ numeral.whole.length :=
          digitsValue_lt (NumberLayout.wellFormed_parts numbers _).whole_digits
        exact hdigits.trans_le ((Nat.pow_le_pow_right (by omega) hlength).trans (by norm_num))
      · have hlast : Binary64.finiteCount - 1 - rank < 3 := by
          have := rank.isLt
          unfold Binary64.safeRank at hsafe
          omega
        have hrank : Binary64.finiteCount - 1 - (Binary64.finiteCount - 1 - rank) = rank := by
          have := rank.isLt
          omega
        have hlast := bestRank_last ⟨_, hlast⟩
        rw [hrank] at hlast
        exact hlast
    exact ⟨_, Binary64.ofRank_of_lt hlt⟩

end Json

/-! ## Values -/

namespace Value

mutual

/-- The value with its numbers changed. -/
def mapFloats (f : Binary64 → Binary64) : Value → Value
  | .float x => .float (f x)
  | .sequence items => .sequence (mapItems f items)
  | .table entries => .table (mapEntries f entries)
  | v => v

def mapItems (f : Binary64 → Binary64) : List Value → List Value
  | [] => []
  | v :: rest => mapFloats f v :: mapItems f rest

def mapEntries (f : Binary64 → Binary64) : List (String × Value) → List (String × Value)
  | [] => []
  | (key, v) :: rest => (key, mapFloats f v) :: mapEntries f rest

end

variable {f : Binary64 → Binary64}

theorem mapItems_eq (items : List Value) : mapItems f items = items.map (mapFloats f) := by
  induction items with
  | nil => rfl
  | cons v rest ih => rw [mapItems, ih, List.map_cons]

theorem mapEntries_eq (entries : List (String × Value)) :
    mapEntries f entries = entries.map fun entry => (entry.1, entry.2.mapFloats f) := by
  induction entries with
  | nil => rfl
  | cons entry rest ih => rw [mapEntries, ih, List.map_cons]

theorem mapFloats_sequence (items : List Value) :
    (sequence items).mapFloats f = sequence (items.map (mapFloats f)) := by
  rw [mapFloats, mapItems_eq]

theorem mapFloats_table (entries : List (String × Value)) : (table entries).mapFloats f =
    table (entries.map fun entry => (entry.1, entry.2.mapFloats f)) := by
  rw [mapFloats, mapEntries_eq]

mutual

/-- Where no number changes, nothing does. -/
theorem mapFloats_eq_self (h : ∀ x, f x = x) : (v : Value) → v.mapFloats f = v
  | .float x => congrArg float (h x)
  | .sequence items => congrArg sequence (mapItems_eq_self h items)
  | .table entries => congrArg table (mapEntries_eq_self h entries)
  | .null | .boolean _ | .integer _ | .unsigned _ | .text _ => rfl

theorem mapItems_eq_self (h : ∀ x, f x = x) : (items : List Value) → mapItems f items = items
  | [] => rfl
  | v :: rest => congrArg₂ List.cons (mapFloats_eq_self h v) (mapItems_eq_self h rest)

theorem mapEntries_eq_self (h : ∀ x, f x = x) :
    (entries : List (String × Value)) → mapEntries f entries = entries
  | [] => rfl
  | (key, v) :: rest =>
    congrArg₂ List.cons (congrArg (key, ·) (mapFloats_eq_self h v)) (mapEntries_eq_self h rest)

end

end Value

end ModelBinding
