import Mathlib
import QueryResults.Text.Utf8

/-!
# Reading back written text

Every text is read back from its UTF-8 bytes, whatever follows, and nothing else is read: bytes that
are decoded are the bytes of the text they are decoded to. In both directions there is one lemma for
each length of a sequence, stated for the numbers of the bytes, and each character has one of the
four lengths.

## Main results

* `Utf8.decodeFrom_encodeChar`: one character, in front of anything.
* `Utf8.decode_encode`: a whole text.
* `Utf8.decode_eq_ok_iff`: the bytes that are decoded at all.
-/

namespace QueryResults.Utf8

theorem ofNat_le {n : Nat} (h : n < 256) (b : UInt8) : UInt8.ofNat n ≤ b ↔ n ≤ b.toNat := by
  rw [UInt8.le_iff_toNat_le, UInt8.toNat_ofNat_of_lt' h]

theorem le_ofNat {n : Nat} (h : n < 256) (b : UInt8) : b ≤ UInt8.ofNat n ↔ b.toNat ≤ n := by
  rw [UInt8.le_iff_toNat_le, UInt8.toNat_ofNat_of_lt' h]

theorem ofNat_lt {n : Nat} (h : n < 256) (b : UInt8) : UInt8.ofNat n < b ↔ n < b.toNat := by
  rw [UInt8.lt_iff_toNat_lt, UInt8.toNat_ofNat_of_lt' h]

theorem ofNat_eq {n : Nat} (h : n < 256) (b : UInt8) : UInt8.ofNat n = b ↔ n = b.toNat := by
  rw [← UInt8.toNat_inj, UInt8.toNat_ofNat_of_lt' h]

/-- A byte of 128 or more stands for no character of its own. -/
theorem not_ascii_ofNat {n : Nat} (h : 0x80 ≤ n) (hn : n < 256) : ¬UInt8.ofNat n < 0x80 := by
  rw [ofNat_lt hn]
  exact Nat.not_lt.2 h

/-! ### Shapes -/

theorem ofLead_two {n : Nat} (h : 0xC2 ≤ n) (h' : n ≤ 0xDF) :
    Shape.ofLead (.ofNat n) = some ⟨1, 0x80, 0xBF⟩ := by
  have hn : n < 256 := by omega
  simp [Shape.ofLead, le_ofNat hn, ofNat_le hn, h, h']

/-- The second byte of a sequence of three. -/
theorem ofLead_three {n m : Nat} (h : 0xE0 ≤ n) (h' : n ≤ 0xEF) (hm : 0x80 ≤ m) (hm' : m ≤ 0xBF)
    (hlow : n = 0xE0 → 0xA0 ≤ m) (hhigh : n = 0xED → m ≤ 0x9F) :
    ∃ shape, Shape.ofLead (.ofNat n) = some shape ∧ shape.tails = 2 ∧ shape.low ≤ .ofNat m ∧
      .ofNat m ≤ shape.high := by
  have hn : n < 256 := by omega
  have hmn : m < 256 := by omega
  by_cases h₁ : n = 0xE0
  · subst h₁
    exact ⟨⟨2, 0xA0, 0xBF⟩, rfl, rfl, (le_ofNat hmn _).2 (hlow rfl), (ofNat_le hmn _).2 hm'⟩
  · by_cases h₂ : n = 0xED
    · subst h₂
      exact ⟨⟨2, 0x80, 0x9F⟩, rfl, rfl, (le_ofNat hmn _).2 hm, (ofNat_le hmn _).2 (hhigh rfl)⟩
    · refine ⟨⟨2, 0x80, 0xBF⟩, ?_, rfl, (le_ofNat hmn _).2 hm, (ofNat_le hmn _).2 hm'⟩
      have h₃ : ¬n ≤ 0xDF := by omega
      have h₄ : 0xE1 ≤ n := by omega
      simp [Shape.ofLead, le_ofNat hn, ofNat_le hn, ofNat_eq hn, h₁, h₂, h₃, h₄, h']

/-- The second byte of a sequence of four. -/
theorem ofLead_four {n m : Nat} (h : 0xF0 ≤ n) (h' : n ≤ 0xF4) (hm : 0x80 ≤ m) (hm' : m ≤ 0xBF)
    (hlow : n = 0xF0 → 0x90 ≤ m) (hhigh : n = 0xF4 → m ≤ 0x8F) :
    ∃ shape, Shape.ofLead (.ofNat n) = some shape ∧ shape.tails = 3 ∧ shape.low ≤ .ofNat m ∧
      .ofNat m ≤ shape.high := by
  have hn : n < 256 := by omega
  have hmn : m < 256 := by omega
  by_cases h₁ : n = 0xF0
  · subst h₁
    exact ⟨⟨3, 0x90, 0xBF⟩, rfl, rfl, (le_ofNat hmn _).2 (hlow rfl), (ofNat_le hmn _).2 hm'⟩
  · by_cases h₂ : n = 0xF4
    · subst h₂
      exact ⟨⟨3, 0x80, 0x8F⟩, rfl, rfl, (le_ofNat hmn _).2 hm, (ofNat_le hmn _).2 (hhigh rfl)⟩
    · refine ⟨⟨3, 0x80, 0xBF⟩, ?_, rfl, (le_ofNat hmn _).2 hm, (ofNat_le hmn _).2 hm'⟩
      have h₃ : ¬n ≤ 0xDF := by omega
      have h₄ : ¬n ≤ 0xEF := by omega
      have h₅ : n ≠ 0xE0 := by omega
      have h₆ : n ≠ 0xED := by omega
      have h₇ : 0xF1 ≤ n := by omega
      have h₈ : n ≤ 0xF3 := by omega
      simp [Shape.ofLead, le_ofNat hn, ofNat_le hn, ofNat_eq hn, h₁, h₃, h₄, h₅, h₆, h₇, h₈]

theorem isTail_ofNat {n : Nat} (h : 0x80 ≤ n) (h' : n ≤ 0xBF) : isTail (.ofNat n) = true := by
  have hn : n < 256 := by omega
  simp [isTail, le_ofNat hn, ofNat_le hn, h, h']

/-! ### Sequences -/

variable {n₀ n₁ n₂ n₃ : Nat} {index : Nat} {rest : List UInt8}

theorem decodeFrom_one (h : n₀ < 0x80) :
    decodeFrom index (.ofNat n₀ :: rest) =
      (decodeFrom (index + 1) rest).map (Char.ofNat n₀ :: ·) := by
  have hn : n₀ < 256 := by omega
  have hlt : UInt8.ofNat n₀ < 0x80 := (ofNat_lt hn _).2 h
  rw [decodeFrom.eq_def]
  simp [hlt, UInt8.toNat_ofNat_of_lt' hn]

theorem decodeFrom_two (h₀ : 0xC2 ≤ n₀) (h₀' : n₀ ≤ 0xDF) (h₁ : 0x80 ≤ n₁) (h₁' : n₁ ≤ 0xBF) :
    decodeFrom index (.ofNat n₀ :: .ofNat n₁ :: rest) =
      (decodeFrom (index + 2) rest).map (Char.ofNat (n₀ % 32 * 64 + n₁ % 64) :: ·) := by
  have hn₀ : n₀ < 256 := by omega
  have hn₁ : n₁ < 256 := by omega
  have hge : ¬UInt8.ofNat n₀ < 0x80 := not_ascii_ofNat (by omega) hn₀
  rw [decodeFrom.eq_def]
  simp [hge, ofLead_two h₀ h₀', le_ofNat hn₁, ofNat_le hn₁, h₁, h₁', tailBits,
    UInt8.toNat_ofNat_of_lt' hn₀, UInt8.toNat_ofNat_of_lt' hn₁]

theorem decodeFrom_three (h₀ : 0xE0 ≤ n₀) (h₀' : n₀ ≤ 0xEF) (h₁ : 0x80 ≤ n₁) (h₁' : n₁ ≤ 0xBF)
    (hlow : n₀ = 0xE0 → 0xA0 ≤ n₁) (hhigh : n₀ = 0xED → n₁ ≤ 0x9F) (h₂ : 0x80 ≤ n₂)
    (h₂' : n₂ ≤ 0xBF) :
    decodeFrom index (.ofNat n₀ :: .ofNat n₁ :: .ofNat n₂ :: rest) =
      (decodeFrom (index + 3) rest).map
        (Char.ofNat ((n₀ % 16 * 64 + n₁ % 64) * 64 + n₂ % 64) :: ·) := by
  have hn₀ : n₀ < 256 := by omega
  have hn₁ : n₁ < 256 := by omega
  have hn₂ : n₂ < 256 := by omega
  have hge : ¬UInt8.ofNat n₀ < 0x80 := not_ascii_ofNat (by omega) hn₀
  obtain ⟨shape, hs, htails, hl, hh⟩ := ofLead_three h₀ h₀' h₁ h₁' hlow hhigh
  rw [decodeFrom.eq_def]
  simp [hge, hs, htails, hl, hh, isTail_ofNat h₂ h₂', UInt8.toNat_ofNat_of_lt' hn₀, tailBits,
    UInt8.toNat_ofNat_of_lt' hn₁, UInt8.toNat_ofNat_of_lt' hn₂]

theorem decodeFrom_four (h₀ : 0xF0 ≤ n₀) (h₀' : n₀ ≤ 0xF4) (h₁ : 0x80 ≤ n₁) (h₁' : n₁ ≤ 0xBF)
    (hlow : n₀ = 0xF0 → 0x90 ≤ n₁) (hhigh : n₀ = 0xF4 → n₁ ≤ 0x8F) (h₂ : 0x80 ≤ n₂)
    (h₂' : n₂ ≤ 0xBF) (h₃ : 0x80 ≤ n₃) (h₃' : n₃ ≤ 0xBF) :
    decodeFrom index (.ofNat n₀ :: .ofNat n₁ :: .ofNat n₂ :: .ofNat n₃ :: rest) =
      (decodeFrom (index + 4) rest).map
        (Char.ofNat (((n₀ % 8 * 64 + n₁ % 64) * 64 + n₂ % 64) * 64 + n₃ % 64) :: ·) := by
  have hn₀ : n₀ < 256 := by omega
  have hn₁ : n₁ < 256 := by omega
  have hn₂ : n₂ < 256 := by omega
  have hn₃ : n₃ < 256 := by omega
  have hge : ¬UInt8.ofNat n₀ < 0x80 := not_ascii_ofNat (by omega) hn₀
  obtain ⟨shape, hs, htails, hl, hh⟩ := ofLead_four h₀ h₀' h₁ h₁' hlow hhigh
  rw [decodeFrom.eq_def]
  simp [hge, hs, htails, hl, hh, isTail_ofNat h₂ h₂', isTail_ofNat h₃ h₃', tailBits,
    UInt8.toNat_ofNat_of_lt' hn₀, UInt8.toNat_ofNat_of_lt' hn₁, UInt8.toNat_ofNat_of_lt' hn₂,
    UInt8.toNat_ofNat_of_lt' hn₃]

/-! ### Characters and texts -/

/-- A character is read back from its bytes, in front of anything. -/
theorem decodeFrom_encodeChar (c : Char) :
    decodeFrom index (String.utf8EncodeChar c ++ rest) =
      (decodeFrom (index + (String.utf8EncodeChar c).length) rest).map (c :: ·) := by
  have hvalid : c.toNat < 0xD800 ∨ 0xDFFF < c.toNat ∧ c.toNat < 0x110000 := c.valid
  have hc (n : Nat) (h : n = c.toNat) : Char.ofNat n = c := by rw [h, Char.ofNat_toNat]
  unfold String.utf8EncodeChar
  simp only [Char.toNat_val]
  split
  · rw [List.singleton_append, decodeFrom_one (by omega), Char.ofNat_toNat]
    rfl
  · split
    · rw [List.cons_append, List.singleton_append, decodeFrom_two (by omega) (by omega) (by omega)
        (by omega), hc _ (by omega)]
      rfl
    · split
      · rw [List.cons_append, List.cons_append, List.singleton_append,
          decodeFrom_three (by omega) (by omega) (by omega) (by omega) (by omega) (by omega)
            (by omega) (by omega), hc _ (by omega)]
        rfl
      · rw [List.cons_append, List.cons_append, List.cons_append, List.singleton_append,
          decodeFrom_four (by omega) (by omega) (by omega) (by omega) (by omega) (by omega)
            (by omega) (by omega) (by omega) (by omega), hc _ (by omega)]
        rfl

theorem decodeFrom_encode (text : List Char) (index : Nat) :
    decodeFrom index (encode text) = .ok text := by
  induction text generalizing index with
  | nil => rfl
  | cons c text ih =>
    rw [encode, List.flatMap_cons, decodeFrom_encodeChar]
    change (decodeFrom _ (encode text)).map _ = _
    rw [ih]
    rfl

/-- A text is read back from its bytes. -/
theorem decode_encode (text : List Char) : decode (encode text) = .ok text :=
  decodeFrom_encode text 0

/-! ### Only written text is read -/

variable {b₀ b₁ b₂ b₃ : UInt8} {shape : Shape}

/-- What a shape says about the first two bytes of a sequence. -/
theorem of_ofLead (h : Shape.ofLead b₀ = some shape) (hl : shape.low ≤ b₁) (hh : b₁ ≤ shape.high) :
    0x80 ≤ b₁.toNat ∧ b₁.toNat ≤ 0xBF ∧
      (shape.tails = 1 ∧ 0xC2 ≤ b₀.toNat ∧ b₀.toNat ≤ 0xDF ∨
        shape.tails = 2 ∧ 0xE0 ≤ b₀.toNat ∧ b₀.toNat ≤ 0xEF ∧
          (b₀.toNat = 0xE0 → 0xA0 ≤ b₁.toNat) ∧ (b₀.toNat = 0xED → b₁.toNat ≤ 0x9F) ∨
        shape.tails = 3 ∧ 0xF0 ≤ b₀.toNat ∧ b₀.toNat ≤ 0xF4 ∧
          (b₀.toNat = 0xF0 → 0x90 ≤ b₁.toNat) ∧ (b₀.toNat = 0xF4 → b₁.toNat ≤ 0x8F)) := by
  rw [UInt8.le_iff_toNat_le] at hl hh
  unfold Shape.ofLead at h
  simp only [Bool.and_eq_true, decide_eq_true_eq, UInt8.le_iff_toNat_le, ← UInt8.toNat_inj,
    UInt8.reduceToNat] at h
  repeat' split at h
  all_goals cases h
  all_goals
    simp only [UInt8.reduceToNat, Nat.reduceEqDiff, OfNat.one_ne_ofNat, OfNat.ofNat_ne_one,
      true_and, false_and, false_or, or_false] at hl hh ⊢
    omega

theorem of_isTail {b : UInt8} (h : isTail b = true) : 0x80 ≤ b.toNat ∧ b.toNat ≤ 0xBF := by
  simpa [isTail, UInt8.le_iff_toNat_le] using h

theorem toNat_val_ofNat {n : Nat} (h : n.isValidChar) : (Char.ofNat n).val.toNat = n := by
  rw [Char.toNat_val, Char.toNat_ofNat, if_pos h]

theorem encodeChar_one (h : b₀.toNat < 0x80) :
    String.utf8EncodeChar (Char.ofNat b₀.toNat) = [b₀] := by
  have hv : b₀.toNat.isValidChar := .inl (by omega)
  unfold String.utf8EncodeChar
  simp only [toNat_val_ofNat hv, if_pos (Nat.le_of_lt_succ h), UInt8.ofNat_toNat]

theorem encodeChar_two (h₀ : 0xC2 ≤ b₀.toNat) (h₀' : b₀.toNat ≤ 0xDF) (h₁ : 0x80 ≤ b₁.toNat)
    (h₁' : b₁.toNat ≤ 0xBF) :
    String.utf8EncodeChar (Char.ofNat (b₀.toNat % 32 * 64 + tailBits b₁)) = [b₀, b₁] := by
  unfold tailBits String.utf8EncodeChar
  have hv : (b₀.toNat % 32 * 64 + b₁.toNat % 64).isValidChar := .inl (by omega)
  rw [toNat_val_ofNat hv]
  simp only [if_neg (show ¬b₀.toNat % 32 * 64 + b₁.toNat % 64 ≤ 127 by omega),
    if_pos (show b₀.toNat % 32 * 64 + b₁.toNat % 64 ≤ 2047 by omega), List.cons.injEq,
    ← UInt8.toNat_inj, UInt8.toNat_ofNat', and_true]
  omega

theorem encodeChar_three (h₀ : 0xE0 ≤ b₀.toNat) (h₀' : b₀.toNat ≤ 0xEF) (h₁ : 0x80 ≤ b₁.toNat)
    (h₁' : b₁.toNat ≤ 0xBF) (hlow : b₀.toNat = 0xE0 → 0xA0 ≤ b₁.toNat)
    (hhigh : b₀.toNat = 0xED → b₁.toNat ≤ 0x9F) (h₂ : 0x80 ≤ b₂.toNat) (h₂' : b₂.toNat ≤ 0xBF) :
    String.utf8EncodeChar
        (Char.ofNat ((b₀.toNat % 16 * 64 + tailBits b₁) * 64 + tailBits b₂)) = [b₀, b₁, b₂] := by
  unfold tailBits String.utf8EncodeChar
  generalize hn : (b₀.toNat % 16 * 64 + b₁.toNat % 64) * 64 + b₂.toNat % 64 = n
  have hv : n.isValidChar := by
    unfold Nat.isValidChar
    omega
  rw [toNat_val_ofNat hv]
  simp only [if_neg (show ¬n ≤ 127 by omega), if_neg (show ¬n ≤ 2047 by omega),
    if_pos (show n ≤ 65535 by omega), List.cons.injEq, ← UInt8.toNat_inj, UInt8.toNat_ofNat',
    and_true]
  omega

theorem encodeChar_four (h₀ : 0xF0 ≤ b₀.toNat) (h₀' : b₀.toNat ≤ 0xF4) (h₁ : 0x80 ≤ b₁.toNat)
    (h₁' : b₁.toNat ≤ 0xBF) (hlow : b₀.toNat = 0xF0 → 0x90 ≤ b₁.toNat)
    (hhigh : b₀.toNat = 0xF4 → b₁.toNat ≤ 0x8F) (h₂ : 0x80 ≤ b₂.toNat) (h₂' : b₂.toNat ≤ 0xBF)
    (h₃ : 0x80 ≤ b₃.toNat) (h₃' : b₃.toNat ≤ 0xBF) :
    String.utf8EncodeChar
        (Char.ofNat (((b₀.toNat % 8 * 64 + tailBits b₁) * 64 + tailBits b₂) * 64
          + tailBits b₃)) = [b₀, b₁, b₂, b₃] := by
  unfold tailBits String.utf8EncodeChar
  generalize hn :
    ((b₀.toNat % 8 * 64 + b₁.toNat % 64) * 64 + b₂.toNat % 64) * 64 + b₃.toNat % 64 = n
  have hv : n.isValidChar := by
    unfold Nat.isValidChar
    omega
  rw [toNat_val_ofNat hv]
  simp only [if_neg (show ¬n ≤ 127 by omega), if_neg (show ¬n ≤ 2047 by omega),
    if_neg (show ¬n ≤ 65535 by omega), List.cons.injEq, ← UInt8.toNat_inj, UInt8.toNat_ofNat',
    and_true]
  omega

theorem encode_cons (c : Char) (text : List Char) :
    encode (c :: text) = String.utf8EncodeChar c ++ encode text := List.flatMap_cons

/-- A character in front of a decoded text. -/
theorem of_map_cons {c : Char} {r : Except Fault (List Char)} {text : List Char}
    (h : r.map (c :: ·) = .ok text) : ∃ rest, r = .ok rest ∧ text = c :: rest := by
  cases r with
  | error f => cases h
  | ok rest =>
    cases h
    exact ⟨rest, rfl, rfl⟩

/-- Bytes that are decoded are the bytes of the text. -/
theorem encode_of_decodeFrom {index : Nat} {bytes : List UInt8} {text : List Char}
    (h : decodeFrom index bytes = .ok text) : encode text = bytes := by
  fun_induction decodeFrom index bytes generalizing text with
  | case1 =>
    cases h
    rfl
  | case2 index b₀ rest hlt ih =>
    obtain ⟨text, hr, rfl⟩ := of_map_cons h
    rw [encode_cons, encodeChar_one (UInt8.lt_iff_toNat_lt.1 hlt), ih hr]
    rfl
  | case6 index b₀ _ shape b₁ rest hs hb htails ih =>
    obtain ⟨text, hr, rfl⟩ := of_map_cons h
    simp only [Bool.not_eq_true', Bool.not_eq_false, Bool.and_eq_true, decide_eq_true_eq] at hb
    obtain ⟨h₁, h₁', hshape⟩ := of_ofLead hs hb.1 hb.2
    rw [encode_cons, encodeChar_two (by omega) (by omega) h₁ h₁', ih hr]
    rfl
  | case9 index b₀ _ shape b₁ hs hb _ b₂ rest hb₂ htails ih =>
    obtain ⟨text, hr, rfl⟩ := of_map_cons h
    simp only [Bool.not_eq_true', Bool.not_eq_false, Bool.and_eq_true, decide_eq_true_eq] at hb hb₂
    obtain ⟨h₁, h₁', hshape⟩ := of_ofLead hs hb.1 hb.2
    obtain ⟨h₂, h₂'⟩ := of_isTail hb₂
    rw [encode_cons, encodeChar_three (by omega) (by omega) h₁ h₁' (by omega) (by omega) h₂ h₂',
      ih hr]
    rfl
  | case12 index b₀ _ shape b₁ hs hb hne b₂ hb₂ hne' b₃ rest hb₃ ih =>
    obtain ⟨text, hr, rfl⟩ := of_map_cons h
    simp only [Bool.not_eq_true', Bool.not_eq_false, Bool.and_eq_true, decide_eq_true_eq]
      at hb hb₂ hb₃
    obtain ⟨h₁, h₁', hshape⟩ := of_ofLead hs hb.1 hb.2
    obtain ⟨h₂, h₂'⟩ := of_isTail hb₂
    obtain ⟨h₃, h₃'⟩ := of_isTail hb₃
    rw [encode_cons, encodeChar_four (by omega) (by omega) h₁ h₁' (by omega) (by omega) h₂ h₂' h₃
      h₃', ih hr]
    rfl
  | _ => cases h

/-- Decoding accepts exactly the bytes of texts. -/
theorem decode_eq_ok_iff {bytes : List UInt8} {text : List Char} :
    decode bytes = .ok text ↔ encode text = bytes := by
  refine ⟨encode_of_decodeFrom, ?_⟩
  rintro rfl
  exact decode_encode text

end QueryResults.Utf8
