import QueryResults.Proofs.Csv.RoundTrip

/-!
# Rows of another width

A reader that expects another number of fields than a row was written with does not read the row. It
reads fields as long as both go on, and stops at the byte behind the last of them: a comma, if the
row has more fields than expected, or a newline, if it has fewer. Neither can hide in the text of a
field, since texts are quoted, nor in a field that is NULL, since the byte behind it is the first
one seen.

## Main definitions

* `Csv.misfit`: what is wrong with a row of another width.
* `Csv.Faults`: reading has found something wrong with a row.

## Main results

* `Csv.faults_fields`, `Csv.faults_nextRow`.
-/

namespace QueryResults.Csv

variable {ρ α : Type} {feed : Feed ρ} {Left : List UInt8 → ρ → Prop} {Expected : StreamFault → Prop}

/-- What is wrong with a row of `fields` fields where `columns` are expected: after the last field
that both have, one of them goes on and the other does not. -/
def misfit (row columns fields : Nat) : Fault :=
  .unexpectedByte row (if columns < fields then comma else newline) (min columns fields) columns

/-- Reading has found something wrong with a row, or met an expected fault of the feed. -/
def Faults (Expected : StreamFault → Prop) (fault : Fault) (x : Except ReadError α) : Prop :=
  (∃ f, x = .error (.source f) ∧ Expected f) ∨ x = .error (.malformed fault)

variable {row columns left : Nat} {value : Option String} {bytes rest : List UInt8} {b : UInt8}
  {fault : Fault} {i : Input ρ}

/-- The byte after a field is not the one that must follow it. -/
theorem faults_after (row : Nat) (h : feed.Carries Left Expected) {field : Nat}
    (hb : b ≠ if field = columns then newline else comma) (hi : i.Holds Left (b :: rest)) :
    Faults Expected (.unexpectedByte row b field columns)
      (expectAfter feed row field columns i).1 := by
  unfold expectAfter
  rcases h.peek_cons hi with ⟨f, i', hp, hf⟩ | ⟨i', hp, -, -⟩
  · rw [hp]
    exact .inl ⟨f, rfl, hf⟩
  · rw [hp]
    simp only [if_neg hb]
    exact .inr rfl

/-- A field is read, and the byte behind it is a wrong one. -/
theorem faults_fields_here (h : feed.Carries Left Expected) (hq : b ≠ quote)
    (hb : b ≠ if columns - left = columns then newline else comma)
    (hi : i.Holds Left (encodeField value ++ b :: rest)) :
    Faults Expected (.unexpectedByte row b (columns - left) columns)
      (readFields feed row columns (left + 1) i).1 := by
  rw [readFields]
  have hfield := reads_field row h value hi hq
  generalize readField feed row i = r at hfield
  obtain ⟨r, i₁⟩ := r
  rcases hfield with ⟨f, hr, hf⟩ | ⟨hr, hi₁⟩ <;> cases hr
  · exact .inl ⟨f, rfl, hf⟩
  simp only
  have hafter := faults_after row h hb hi₁
  generalize expectAfter feed row (columns - left) columns i₁ = r at hafter
  obtain ⟨r, i₂⟩ := r
  rcases hafter with ⟨f, hr, hf⟩ | hr <;> cases hr
  · exact .inl ⟨f, rfl, hf⟩
  · exact .inr rfl

/-- A field and the byte behind it are read, and something is wrong with the other fields. -/
theorem faults_fields_later (h : feed.Carries Left Expected) (hq : b ≠ quote)
    (hb : b = if columns - left = columns then newline else comma)
    (hi : i.Holds Left (encodeField value ++ b :: bytes))
    (ih : ∀ i, i.Holds Left bytes → Faults Expected fault (readFields feed row columns left i).1) :
    Faults Expected fault (readFields feed row columns (left + 1) i).1 := by
  rw [readFields]
  have hfield := reads_field row h value hi hq
  generalize readField feed row i = r at hfield
  obtain ⟨r, i₁⟩ := r
  rcases hfield with ⟨f, hr, hf⟩ | ⟨hr, hi₁⟩ <;> cases hr
  · exact .inl ⟨f, rfl, hf⟩
  simp only
  have hafter := reads_after row h hb hi₁
  generalize expectAfter feed row (columns - left) columns i₁ = r at hafter
  obtain ⟨r, i₂⟩ := r
  rcases hafter with ⟨f, hr, hf⟩ | ⟨hr, hi₂⟩ <;> cases hr
  · exact .inl ⟨f, rfl, hf⟩
  simp only
  have hfields := ih i₂ hi₂
  generalize readFields feed row columns left i₂ = r at hfields
  obtain ⟨r, i₃⟩ := r
  rcases hfields with ⟨f, hr, hf⟩ | hr <;> cases hr
  · exact .inl ⟨f, rfl, hf⟩
  · exact .inr rfl

/-- The last fields of a row are not read as another number of fields. -/
theorem faults_fields (row : Nat) (h : feed.Carries Left Expected) (values : Row)
    (hne : values ≠ []) (hpos : 0 < left) (hle : left ≤ columns) (hlen : values.length ≠ left)
    (hi : i.Holds Left (encodeRow values ++ rest)) :
    Faults Expected
      (.unexpectedByte row (if left < values.length then comma else newline)
        (columns - left + min left values.length) columns)
      (readFields feed row columns left i).1 := by
  induction values generalizing left i with
  | nil => exact absurd rfl hne
  | cons value values ih =>
    obtain ⟨left, rfl⟩ := Nat.exists_eq_add_one.2 hpos
    cases values with
    | nil =>
      -- the row ends here and should go on
      have hlt : 0 < left := Nat.pos_of_ne_zero fun hz => hlen (by rw [hz]; rfl)
      have hb : newline ≠ if columns - left = columns then newline else comma := by
        rw [if_neg (by omega)]
        decide
      have hfield : columns - (left + 1) + min (left + 1) [value].length = columns - left := by
        rw [List.length_singleton]
        omega
      rw [encodeRow, List.append_assoc, List.singleton_append] at hi
      rw [hfield, if_neg (by rw [List.length_singleton]; omega)]
      exact faults_fields_here h (by decide) hb hi
    | cons value' values =>
      rw [encodeRow_cons_cons, List.append_assoc, List.cons_append] at hi
      cases left with
      | zero =>
        -- the row goes on and should end here
        have hb : comma ≠ if columns - 0 = columns then newline else comma := by
          rw [if_pos (Nat.sub_zero _)]
          decide
        have hfield : columns - (0 + 1) + min (0 + 1) (value :: value' :: values).length =
            columns - 0 := by
          simp only [List.length_cons]
          omega
        rw [hfield, if_pos (by simp)]
        exact faults_fields_here h (by decide) hb hi
      | succ left =>
        have hb : comma = if columns - (left + 1) = columns then newline else comma :=
          (if_neg (by omega)).symm
        have hbyte : (if left + 1 < (value' :: values).length then comma else newline) =
            if left + 1 + 1 < (value :: value' :: values).length then comma else newline := by
          simp only [List.length_cons, Nat.add_lt_add_iff_right]
        have hfield : columns - (left + 1) + min (left + 1) (value' :: values).length =
            columns - (left + 1 + 1) + min (left + 1 + 1) (value :: value' :: values).length := by
          simp only [List.length_cons]
          omega
        rw [← hbyte, ← hfield]
        refine faults_fields_later h (by decide) hb hi fun i hi => ?_
        exact ih (List.cons_ne_nil _ _) (Nat.succ_pos left) (Nat.le_of_succ_le hle)
          (fun he => hlen (congrArg (· + 1) he)) hi

/-- A row with another number of fields than expected is not read, whatever follows it. -/
theorem faults_nextRow (h : feed.Carries Left Expected) {r : Reader ρ} {values : Row}
    (hpos : 0 < r.columns) (hne : values ≠ []) (hlen : values.length ≠ r.columns)
    (hi : r.input.Holds Left (encodeRow values ++ rest)) :
    Faults Expected (misfit (r.rowsRead + 1) r.columns values.length) (r.nextRow feed).1 := by
  obtain ⟨b, more, hb⟩ := List.exists_cons_of_ne_nil (encodeRow_ne_nil values)
  have hi' := hi
  rw [hb, List.cons_append] at hi'
  unfold Reader.nextRow
  rw [if_neg (Nat.ne_of_gt hpos)]
  rcases h.peek_cons hi' with ⟨f, i', hp, hf⟩ | ⟨i', hp, hi', -⟩
  · rw [hp]
    exact .inl ⟨f, rfl, hf⟩
  · rw [← List.cons_append, ← hb] at hi'
    have hfields := faults_fields (r.rowsRead + 1) h values hne hpos le_rfl hlen hi'
    rw [Nat.sub_self, Nat.zero_add] at hfields
    rw [hp]
    simp only
    generalize readFields feed (r.rowsRead + 1) r.columns r.columns i' = x at hfields
    obtain ⟨x, i''⟩ := x
    rcases hfields with ⟨f, hr, hf⟩ | hr <;> cases hr
    · exact .inl ⟨f, rfl, hf⟩
    · exact .inr rfl

end QueryResults.Csv
