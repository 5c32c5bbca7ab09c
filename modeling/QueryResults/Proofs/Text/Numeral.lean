import Mathlib.Data.List.Induction
import Mathlib.Data.List.TakeWhile
import Mathlib.Data.Nat.Digits.Defs
import QueryResults.Text.Numeral

/-!
# What numerals denote

A numeral is made of blanks, a plus sign or none, digits, at least one, and blanks again, and it
denotes the number with these digits. A text denotes one number at most. Reading a text finds this
number if it is below 2^64, and nothing otherwise.

## Main definitions

* `Numeral.Denotes`: a text denotes a number.

## Main results

* `Numeral.denotes_iff`: a text is a numeral if nothing but digits is left of it.
* `Numeral.read_eq_some_iff`, `Numeral.read_eq_none_iff`: what is read from a text.
-/

namespace QueryResults

/-! ### Trimming -/

theorem isBlank_of_isDigit {c : Char} (h : c.isDigit = true) : isBlank c = false := by
  have hrange : 48 ≤ c.toNat ∧ c.toNat ≤ 57 := by
    simpa [Char.isDigit, UInt32.le_iff_toNat_le] using h
  simp only [isBlank, Bool.or_eq_false_iff, Bool.and_eq_false_iff, decide_eq_false_iff_not]
  omega

/-- Blanks are dropped up to the first character that is none. -/
theorem dropWhile_isBlank {blanks core : List Char} (hblanks : ∀ c ∈ blanks, isBlank c = true)
    (hcore : ∀ c ∈ core, isBlank c = false) (hne : core ≠ []) (rest : List Char) :
    (blanks ++ core ++ rest).dropWhile isBlank = core ++ rest := by
  obtain ⟨c, core, rfl⟩ := List.exists_cons_of_ne_nil hne
  rw [List.append_assoc, List.dropWhile_append_of_pos hblanks]
  exact List.dropWhile_cons_of_neg (by simp [hcore c List.mem_cons_self])

/-- Blanks around a text are trimmed off. -/
theorem trimBlanks_eq {before core after : List Char} (hbefore : ∀ c ∈ before, isBlank c = true)
    (hafter : ∀ c ∈ after, isBlank c = true) (hcore : ∀ c ∈ core, isBlank c = false)
    (hne : core ≠ []) : trimBlanks (before ++ core ++ after) = core := by
  have hend : (after.reverse ++ core.reverse ++ []).dropWhile isBlank = core.reverse ++ [] :=
    dropWhile_isBlank (by simpa using hafter) (by simpa using hcore) (by simpa using hne) []
  rw [trimBlanks, dropWhile_isBlank hbefore hcore hne, List.reverse_append]
  simp only [List.append_nil] at hend
  rw [hend, List.reverse_reverse]

/-- Nothing but blanks is trimmed off. -/
theorem exists_eq_append_trimBlanks (text : List Char) :
    ∃ before after, (∀ c ∈ before, isBlank c = true) ∧ (∀ c ∈ after, isBlank c = true) ∧
      text = before ++ trimBlanks text ++ after := by
  let inner := text.dropWhile isBlank
  refine ⟨text.takeWhile isBlank, (inner.reverse.takeWhile isBlank).reverse, fun c hc => ?_,
    fun c hc => ?_, ?_⟩
  · exact List.mem_takeWhile_imp hc
  · exact List.mem_takeWhile_imp (List.mem_reverse.1 hc)
  · have hinner : inner = trimBlanks text ++ (inner.reverse.takeWhile isBlank).reverse := by
      rw [trimBlanks, ← List.reverse_append, List.takeWhile_append_dropWhile, List.reverse_reverse]
    rw [List.append_assoc, ← hinner, List.takeWhile_append_dropWhile]

/-! ### Numerals -/

namespace Numeral

/-- The number of a digit. -/
def digit (c : Char) : Nat := c.toNat - '0'.toNat

/-- A text is a numeral: blanks, a plus sign or none, digits, at least one, and blanks. It denotes
the number with these digits. -/
def Denotes (text : String) (n : Nat) : Prop :=
  ∃ before sign digits after : List Char,
    text.toList = before ++ (sign ++ digits) ++ after ∧
    (∀ c ∈ before, isBlank c = true) ∧ (∀ c ∈ after, isBlank c = true) ∧
    (sign = [] ∨ sign = ['+']) ∧ digits ≠ [] ∧ (∀ c ∈ digits, c.isDigit = true) ∧
    Nat.ofDigits 10 (digits.reverse.map digit) = n

/-- Digits are counted from the most significant one, each time with ten times what was counted
before. -/
theorem value_eq_ofDigits (digits : List Char) :
    value 0 digits = Nat.ofDigits 10 (digits.reverse.map digit) := by
  induction digits using List.reverseRecOn with
  | nil => rfl
  | append_singleton digits c ih =>
    rw [value, List.foldl_append] at *
    rw [List.reverse_append, List.reverse_singleton, List.singleton_append, List.map_cons,
      Nat.ofDigits_cons, ← ih]
    simp only [List.foldl_cons, List.foldl_nil, digit]
    omega

theorem dropSign_of_isDigit {digits : List Char} (h : ∀ c ∈ digits, c.isDigit = true) :
    dropSign digits = digits := by
  unfold dropSign
  split
  next rest => exact absurd (h '+' List.mem_cons_self) (by decide)
  next => rfl

/-- A text is a numeral if and only if digits are left of it without blanks and sign. -/
theorem denotes_iff {text : String} {n : Nat} :
    Denotes text n ↔ dropSign (trimBlanks text.toList) ≠ [] ∧
      (∀ c ∈ dropSign (trimBlanks text.toList), c.isDigit = true) ∧
      value 0 (dropSign (trimBlanks text.toList)) = n := by
  constructor
  · rintro ⟨before, sign, digits, after, htext, hbefore, hafter, hsign, hne, hdigits, rfl⟩
    have hcore : ∀ c ∈ sign ++ digits, isBlank c = false := by
      intro c hc
      rcases List.mem_append.1 hc with hc | hc
      · rcases hsign with rfl | rfl
        · cases hc
        · cases List.mem_singleton.1 hc
          decide
      · exact isBlank_of_isDigit (hdigits c hc)
    have hdrop : dropSign (trimBlanks text.toList) = digits := by
      rw [htext, trimBlanks_eq hbefore hafter hcore (by simp [hne])]
      rcases hsign with rfl | rfl
      · exact dropSign_of_isDigit hdigits
      · rfl
    rw [hdrop]
    exact ⟨hne, hdigits, value_eq_ofDigits digits⟩
  · rintro ⟨hne, hdigits, rfl⟩
    obtain ⟨before, after, hbefore, hafter, htext⟩ := exists_eq_append_trimBlanks text.toList
    have hsign : ∃ sign, (sign = [] ∨ sign = ['+']) ∧
        trimBlanks text.toList = sign ++ dropSign (trimBlanks text.toList) := by
      unfold dropSign
      split
      next rest heq => exact ⟨['+'], .inr rfl, heq⟩
      next => exact ⟨[], .inl rfl, rfl⟩
    obtain ⟨sign, hsign, hcore⟩ := hsign
    refine ⟨before, sign, _, after, ?_, hbefore, hafter, hsign, hne, hdigits,
      (value_eq_ofDigits _).symm⟩
    rw [← hcore]
    exact htext

/-- A text denotes one number at most. -/
theorem Denotes.unique {text : String} {m n : Nat} (hm : Denotes text m) (hn : Denotes text n) :
    m = n :=
  (denotes_iff.1 hm).2.2.symm.trans (denotes_iff.1 hn).2.2

/-- The number that a text denotes is read if it is below 2^64. -/
theorem read_of_denotes {text : String} {n : Nat} (h : Denotes text n) (hn : n < UInt64.size) :
    read text = some (.ofNat n) := by
  obtain ⟨hne, hdigits, rfl⟩ := denotes_iff.1 h
  unfold read
  rw [if_pos]
  simp only [Bool.and_eq_true, Bool.not_eq_true', List.isEmpty_eq_false_iff, List.all_eq_true,
    decide_eq_true_eq]
  exact ⟨⟨hne, hdigits⟩, hn⟩

/-- What is read from a text is the number it denotes. -/
theorem denotes_of_read {text : String} {n : UInt64} (h : read text = some n) :
    Denotes text n.toNat := by
  unfold read at h
  dsimp only at h
  split at h
  next hcond =>
    cases h
    simp only [Bool.and_eq_true, Bool.not_eq_true', List.isEmpty_eq_false_iff, List.all_eq_true,
      decide_eq_true_eq] at hcond
    obtain ⟨⟨hne, hdigits⟩, hlt⟩ := hcond
    rw [UInt64.toNat_ofNat_of_lt' hlt]
    exact denotes_iff.2 ⟨hne, hdigits, rfl⟩
  next => cases h

theorem read_eq_some_iff {text : String} {n : UInt64} :
    read text = some n ↔ Denotes text n.toNat := by
  refine ⟨denotes_of_read, fun h => ?_⟩
  rw [read_of_denotes h n.toNat_lt, UInt64.ofNat_toNat]

/-- Nothing is read from a text that denotes no number, or one of 2^64 or more. -/
theorem read_eq_none_iff {text : String} :
    read text = none ↔ ∀ n, Denotes text n → UInt64.size ≤ n := by
  constructor
  · intro h n hn
    by_contra hlt
    rw [read_of_denotes hn (Nat.lt_of_not_le hlt)] at h
    cases h
  · intro h
    cases hread : read text with
    | none => rfl
    | some n => exact absurd (h _ (denotes_of_read hread)) (Nat.not_le.2 n.toNat_lt)

end Numeral

end QueryResults
