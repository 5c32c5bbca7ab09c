import QueryResults.Proofs.Csv.Quoted
import QueryResults.Proofs.Feed.Content
import QueryResults.Proofs.Text.Utf8

/-!
# Reading back written rows

From an input that holds a written row, followed by anything, the reader reads that row and leaves
what follows it, unless the feed breaks. From an input that holds nothing it reads the end. Nothing
is assumed about the pieces in which the feed hands the bytes out, so it does not matter where they
are cut: before a quote, within a doubled quote, or within a character.

## Main definitions

* `Csv.Reads`: what reading from an input that holds something has come to.
* `Csv.encodeRows`: written rows, one after the other.

## Main results

* `Csv.reads_field`, `Csv.reads_fields`, `Csv.reads_row`, `Csv.reads_end`.
* `Csv.reads_nextRow`: one of several rows.
-/

namespace QueryResults.Csv

variable {ρ α : Type} {feed : Feed ρ} {Left : List UInt8 → ρ → Prop} {Expected : StreamFault → Prop}

/-- Reading has come to a value and left an input that holds the rest, or met an expected fault of
the feed. -/
def Reads (Left : List UInt8 → ρ → Prop) (Expected : StreamFault → Prop) (value : α)
    (rest : List UInt8) (r : Except ReadError α × Input ρ) : Prop :=
  (∃ f, r.1 = .error (.source f) ∧ Expected f) ∨ r.1 = .ok value ∧ r.2.Holds Left rest

/-- Written rows, one after the other. -/
def encodeRows (rows : List Row) : List UInt8 := rows.flatMap encodeRow

/-! ### Quoted fields -/

variable {row : Nat} {read bytes rest : List UInt8} {atQuote : Bool} {i : Input ρ} {b : UInt8}

/-- The closing quote is known by what follows it. -/
theorem reads_closing (read : List UInt8) (h : feed.Carries Left Expected) (hi : i.Holds Left rest)
    (hrest : ∀ b ∈ rest.head?, b ≠ quote) :
    Reads Left Expected read.reverse rest (scanQuoted feed row read true i) := by
  rw [scanQuoted_eq]
  cases rest with
  | nil =>
    rcases h.peek_nil hi with ⟨f, i', hp, hf⟩ | ⟨i', hp, hi'⟩
    · rw [hp]
      exact .inl ⟨f, rfl, hf⟩
    · rw [hp]
      exact .inr ⟨rfl, hi'⟩
  | cons b rest =>
    rcases h.peek_cons hi with ⟨f, i', hp, hf⟩ | ⟨i', hp, hi', -⟩
    · rw [hp]
      exact .inl ⟨f, rfl, hf⟩
    · have hb : b ≠ quote := hrest b rfl
      rw [hp]
      simp only [hb, decide_false]
      exact .inr ⟨rfl, hi'⟩

/-- A quoted text is read back to its closing quote. -/
theorem reads_quoted (h : feed.Carries Left Expected) (read text : List UInt8)
    (hi : i.Holds Left (text.flatMap escapeByte ++ quote :: rest))
    (hrest : ∀ b ∈ rest.head?, b ≠ quote) :
    Reads Left Expected (read.reverse ++ text) rest (scanQuoted feed row read false i) := by
  induction text generalizing read i with
  | nil =>
    rw [List.flatMap_nil, List.nil_append] at hi
    rw [scanQuoted_eq, List.append_nil]
    rcases h.peek_cons hi with ⟨f, i', hp, hf⟩ | ⟨i', hp, -, hskip⟩
    · rw [hp]
      exact .inl ⟨f, rfl, hf⟩
    · rw [hp]
      exact reads_closing read h hskip hrest
  | cons b text ih =>
    rw [List.flatMap_cons, List.append_assoc] at hi
    rw [scanQuoted_eq]
    by_cases hb : b = quote
    · subst hb
      rcases h.peek_cons hi with ⟨f, i', hp, hf⟩ | ⟨i', hp, -, hskip⟩
      · rw [hp]
        exact .inl ⟨f, rfl, hf⟩
      · rw [hp]
        simp only [decide_true]
        -- the first of two quotes is taken for a closing one until the second is seen
        rw [scanQuoted_eq]
        rcases h.peek_cons hskip with ⟨f, i'', hp', hf⟩ | ⟨i'', hp', -, hskip'⟩
        · rw [hp']
          exact .inl ⟨f, rfl, hf⟩
        · rw [hp']
          simp only [decide_true]
          have := ih (quote :: read) hskip'
          rwa [List.reverse_cons, List.append_assoc] at this
    · rw [escapeByte, if_neg hb] at hi
      rcases h.peek_cons hi with ⟨f, i', hp, hf⟩ | ⟨i', hp, -, hskip⟩
      · rw [hp]
        exact .inl ⟨f, rfl, hf⟩
      · rw [hp]
        simp only [hb, decide_false]
        have := ih (b :: read) hskip
        rwa [List.reverse_cons, List.append_assoc] at this

/-! ### Rows -/

/-- A field is read back up to the byte that follows it. -/
theorem reads_field (row : Nat) (h : feed.Carries Left Expected) (value : Option String)
    (hi : i.Holds Left (encodeField value ++ b :: rest)) (hb : b ≠ quote) :
    Reads Left Expected value (b :: rest) (readField feed row i) := by
  unfold readField
  cases value with
  | none =>
    rcases h.peek_cons hi with ⟨f, i', hp, hf⟩ | ⟨i', hp, hi', -⟩
    · rw [hp]
      exact .inl ⟨f, rfl, hf⟩
    · rw [hp]
      simp only [hb, ↓reduceIte]
      exact .inr ⟨rfl, hi'⟩
  | some text =>
    rw [encodeField, List.cons_append, List.append_assoc, List.singleton_append] at hi
    rcases h.peek_cons hi with ⟨f, i', hp, hf⟩ | ⟨i', hp, -, hskip⟩
    · rw [hp]
      exact .inl ⟨f, rfl, hf⟩
    · have hquoted : Reads Left Expected (Utf8.encode text.toList) (b :: rest)
          (readQuoted feed row [] i'.skip) := by
        rw [readQuoted_nil]
        refine reads_quoted h [] _ hskip fun b' hb' => ?_
        cases hb'
        exact hb
      rw [hp]
      simp only [↓reduceIte]
      generalize readQuoted feed row [] i'.skip = r at hquoted
      obtain ⟨r, i''⟩ := r
      rcases hquoted with ⟨f, hr, hf⟩ | ⟨hr, hi''⟩
      · cases hr
        exact .inl ⟨f, rfl, hf⟩
      · cases hr
        simp only [Utf8.decode_encode, String.ofList_toList]
        exact .inr ⟨rfl, hi''⟩

/-- The byte that must follow a field is consumed. -/
theorem reads_after (row : Nat) (h : feed.Carries Left Expected) {field columns : Nat}
    (hb : b = if field = columns then newline else comma) (hi : i.Holds Left (b :: rest)) :
    Reads Left Expected () rest (expectAfter feed row field columns i) := by
  unfold expectAfter
  rcases h.peek_cons hi with ⟨f, i', hp, hf⟩ | ⟨i', hp, -, hskip⟩
  · rw [hp]
    exact .inl ⟨f, rfl, hf⟩
  · rw [hp]
    simp only [if_pos hb]
    exact .inr ⟨rfl, hskip⟩

/-- One field and what follows it, in front of the other fields of a row. -/
theorem reads_fields_cons (row : Nat) (h : feed.Carries Left Expected) {columns : Nat}
    {value : Option String} {values : Row}
    (hb : b = if columns - values.length = columns then newline else comma)
    (hq : b ≠ quote) (hi : i.Holds Left (encodeField value ++ b :: bytes))
    (ih : ∀ i, i.Holds Left bytes →
      Reads Left Expected values rest (readFields feed row columns values.length i)) :
    Reads Left Expected (value :: values) rest
      (readFields feed row columns (value :: values).length i) := by
  rw [List.length_cons, readFields]
  have hfield := reads_field row h value hi hq
  generalize readField feed row i = r at hfield
  obtain ⟨r, i₁⟩ := r
  rcases hfield with ⟨f, hr, hf⟩ | ⟨hr, hi₁⟩
  · cases hr
    exact .inl ⟨f, rfl, hf⟩
  cases hr
  simp only
  have hafter := reads_after row h hb hi₁
  generalize expectAfter feed row (columns - values.length) columns i₁ = r at hafter
  obtain ⟨r, i₂⟩ := r
  rcases hafter with ⟨f, hr, hf⟩ | ⟨hr, hi₂⟩
  · cases hr
    exact .inl ⟨f, rfl, hf⟩
  cases hr
  simp only
  have hvalues := ih i₂ hi₂
  generalize readFields feed row columns values.length i₂ = r at hvalues
  obtain ⟨r, i₃⟩ := r
  rcases hvalues with ⟨f, hr, hf⟩ | ⟨hr, hi₃⟩
  · cases hr
    exact .inl ⟨f, rfl, hf⟩
  · cases hr
    exact .inr ⟨rfl, hi₃⟩

theorem encodeRow_cons_cons (value value' : Option String) (values : Row) :
    encodeRow (value :: value' :: values) =
      encodeField value ++ comma :: encodeRow (value' :: values) := by
  rw [encodeRow]
  exact nofun

/-- The last fields of a row are read back. -/
theorem reads_fields (row : Nat) (h : feed.Carries Left Expected) {columns : Nat} (values : Row)
    (hne : values ≠ []) (hle : values.length ≤ columns)
    (hi : i.Holds Left (encodeRow values ++ rest)) :
    Reads Left Expected values rest (readFields feed row columns values.length i) := by
  induction values generalizing i with
  | nil => exact absurd rfl hne
  | cons value values ih =>
    cases values with
    | nil =>
      rw [encodeRow, List.append_assoc, List.singleton_append] at hi
      refine reads_fields_cons row h (by simp) (by decide) hi fun i hi => ?_
      exact .inr ⟨rfl, hi⟩
    | cons value' values =>
      have hlt : ¬columns - (value' :: values).length = columns := by
        simp only [List.length_cons] at hle ⊢
        omega
      rw [encodeRow_cons_cons, List.append_assoc, List.cons_append] at hi
      refine reads_fields_cons row h (if_neg hlt).symm (by decide) hi fun i hi => ?_
      exact ih nofun (Nat.le_of_succ_le hle) hi

theorem encodeRow_ne_nil (values : Row) : encodeRow values ≠ [] := by
  unfold encodeRow
  split <;> simp

theorem columns_nextRow (feed : Feed ρ) (r : Reader ρ) :
    (r.nextRow feed).2.columns = r.columns := by
  unfold Reader.nextRow
  split
  · rfl
  · split
    · rfl
    · rfl
    · split <;> rfl

/-- From a written row with as many fields as expected, followed by anything, the row is read. -/
theorem reads_row (h : feed.Carries Left Expected) {r : Reader ρ} {values : Row}
    (hpos : 0 < r.columns) (hlen : values.length = r.columns)
    (hi : r.input.Holds Left (encodeRow values ++ rest)) :
    Reads Left Expected (some values) rest ((r.nextRow feed).1, (r.nextRow feed).2.input) := by
  have hne : values ≠ [] := by
    rintro rfl
    exact absurd hlen (Nat.ne_of_lt hpos)
  obtain ⟨b, more, hb⟩ := List.exists_cons_of_ne_nil (encodeRow_ne_nil values)
  have hi' := hi
  rw [hb, List.cons_append] at hi'
  unfold Reader.nextRow
  rw [if_neg (Nat.ne_of_gt hpos)]
  rcases h.peek_cons hi' with ⟨f, i', hp, hf⟩ | ⟨i', hp, hi', -⟩
  · rw [hp]
    exact .inl ⟨f, rfl, hf⟩
  · rw [← List.cons_append, ← hb] at hi'
    have hread := reads_fields (r.rowsRead + 1) h values hne (Nat.le_of_eq hlen) hi'
    rw [hlen] at hread
    rw [hp]
    simp only
    generalize readFields feed (r.rowsRead + 1) r.columns r.columns i' = x at hread
    obtain ⟨x, i''⟩ := x
    rcases hread with ⟨f, hx, hf⟩ | ⟨hx, hi''⟩
    · cases hx
      exact .inl ⟨f, rfl, hf⟩
    · cases hx
      exact .inr ⟨rfl, hi''⟩

/-- From nothing, the end is read. -/
theorem reads_end (h : feed.Carries Left Expected) {r : Reader ρ} (hpos : 0 < r.columns)
    (hi : r.input.Holds Left []) :
    Reads Left Expected none [] ((r.nextRow feed).1, (r.nextRow feed).2.input) := by
  unfold Reader.nextRow
  rw [if_neg (Nat.ne_of_gt hpos)]
  rcases h.peek_nil hi with ⟨f, i', hp, hf⟩ | ⟨i', hp, hi'⟩
  · rw [hp]
    exact .inl ⟨f, rfl, hf⟩
  · rw [hp]
    exact .inr ⟨rfl, hi'⟩

/-- From rows that all have as many fields as expected, the first is read, or the end if there is
none. -/
theorem reads_nextRow (h : feed.Carries Left Expected) {r : Reader ρ} {rows : List Row}
    (hpos : 0 < r.columns) (hrows : ∀ values ∈ rows, values.length = r.columns)
    (hi : r.input.Holds Left (encodeRows rows)) :
    Reads Left Expected rows.head? (encodeRows rows.tail)
      ((r.nextRow feed).1, (r.nextRow feed).2.input) := by
  cases rows with
  | nil => exact reads_end h hpos hi
  | cons values rows => exact reads_row h hpos (hrows values List.mem_cons_self) hi

end QueryResults.Csv
