import QueryResults.Proofs.Csv.RoundTrip

/-!
# Only written rows are accepted

What the reader of rows accepts was written in front of its input: a field it has read stands there
as a field is written, a row as a row is written, and it has consumed nothing else. Together with
the reading back of written rows this makes the dialect exact. For a feed that never breaks, a row
is read if and only if the input starts with that row, the end is read if and only if nothing is
left, and everything else is malformed.

## Main definitions

* `Csv.Takes`: what is known of the input once reading has come to a value.
* `Csv.Reader.unread`: the bytes that a reader of pieces has not consumed.
* `Csv.Reader.nextRows`: several answers of a reader, one after the other.

## Main results

* `Csv.takes_quoted`, `Csv.takes_field`, `Csv.takes_fields`, `Csv.takes_nextRow`.
* `Csv.Reader.nextRow_exact`: what the reader accepts and what it leaves.
-/

namespace QueryResults.Csv

variable {ρ α β : Type} {feed : Feed ρ} {Left : List UInt8 → ρ → Prop}
  {Expected : StreamFault → Prop}

/-- If reading has come to a value, the value and what is left are related to the input as `From`
says; if it has met a fault of the feed, the fault was expected. -/
def Takes (Left : List UInt8 → ρ → Prop) (Expected : StreamFault → Prop)
    (From : α → List UInt8 → Prop) (r : Except ReadError α × Input ρ) : Prop :=
  match r.1 with
  | .ok value => ∃ rest, From value rest ∧ r.2.Holds Left rest
  | .error (.source f) => Expected f
  | .error (.malformed _) => True

/-- An error says the same, whatever value was to be read. -/
theorem Takes.error {From : α → List UInt8 → Prop} {From' : β → List UInt8 → Prop} {e : ReadError}
    {i i' : Input ρ} (h : Takes Left Expected From (.error e, i)) :
    Takes Left Expected From' (.error e, i') := by
  cases e with
  | malformed f => trivial
  | source f => exact h

theorem Takes.imp {From From' : α → List UInt8 → Prop} {r : Except ReadError α × Input ρ}
    (h : Takes Left Expected From r) (himp : ∀ value rest, From value rest → From' value rest) :
    Takes Left Expected From' r := by
  obtain ⟨x, i⟩ := r
  cases x with
  | error e => exact h.error
  | ok value =>
    obtain ⟨rest, hfrom, hi⟩ := h
    exact ⟨rest, himp value rest hfrom, hi⟩

variable {columns : Nat} {bytes : List UInt8} {i : Input ρ}

/-! ### Fields -/

/-- A quoted text was written in front of what is left. A quote that is already consumed, of which
it is open whether it closes the text, counts as part of the input. -/
theorem takes_quoted (row : Nat) (h : feed.Carries Left Expected) (read : List UInt8)
    (atQuote : Bool) (hi : i.Holds Left bytes) :
    Takes Left Expected
      (fun text rest => ∃ more, text = read.reverse ++ more ∧
        (if atQuote then quote :: bytes else bytes) = more.flatMap escapeByte ++ quote :: rest)
      (scanQuoted feed row read atQuote i) := by
  fun_induction scanQuoted feed row read atQuote i generalizing bytes with
  | case1 read atQuote i f i' hp => exact h.of_peek hi hp
  | case2 read i i' hp =>
    obtain ⟨rfl, hi'⟩ := h.of_peek hi hp
    exact ⟨[], ⟨[], (List.append_nil _).symm, rfl⟩, hi'⟩
  | case3 => trivial
  | case4 read i b i' hp hb ih =>
    -- the second of two quotes: they stand for one quote of the text
    obtain ⟨rest, rfl, -, hskip⟩ := h.of_peek hi hp
    obtain rfl : b = quote := of_decide_eq_true hb
    refine (ih hskip).imp ?_
    rintro text left ⟨more, rfl, hmore⟩
    exact ⟨quote :: more, by simp, congrArg (fun l => quote :: quote :: l) hmore⟩
  | case5 read i b i' hp hb =>
    -- the quote before this byte has closed the text
    obtain ⟨rest, rfl, hi', -⟩ := h.of_peek hi hp
    exact ⟨b :: rest, ⟨[], (List.append_nil _).symm, rfl⟩, hi'⟩
  | case6 read i b i' hp hb ih =>
    obtain ⟨rest, rfl, -, hskip⟩ := h.of_peek hi hp
    obtain rfl : b = quote := of_decide_eq_true hb
    exact ih hskip
  | case7 read i b i' hp hb ih =>
    obtain ⟨rest, rfl, -, hskip⟩ := h.of_peek hi hp
    refine (ih hskip).imp ?_
    rintro text left ⟨more, rfl, hmore⟩
    refine ⟨b :: more, by simp, ?_⟩
    have hescape : escapeByte b = [b] := if_neg (of_decide_eq_false hb)
    rw [List.flatMap_cons, hescape]
    exact congrArg (b :: ·) hmore

/-- A field was written in front of what is left. -/
theorem takes_field (row : Nat) (h : feed.Carries Left Expected) (hi : i.Holds Left bytes) :
    Takes Left Expected (fun value rest => bytes = encodeField value ++ rest)
      (readField feed row i) := by
  unfold readField
  split
  · rename_i f i' hp
    exact h.of_peek hi hp
  · rename_i i' hp
    obtain ⟨rfl, hi'⟩ := h.of_peek hi hp
    exact ⟨[], rfl, hi'⟩
  · rename_i b i' hp
    obtain ⟨rest, rfl, hi', hskip⟩ := h.of_peek hi hp
    split
    · rename_i hb
      subst hb
      have hquoted := takes_quoted row h [] false hskip
      rw [← readQuoted_nil] at hquoted
      split
      · rename_i e i'' hr
        rw [hr] at hquoted
        exact hquoted.error
      · rename_i read i'' hr
        rw [hr] at hquoted
        obtain ⟨left, ⟨more, hread, hmore⟩, hi''⟩ := hquoted
        split
        · rename_i text hd
          refine ⟨left, ?_, hi''⟩
          have htext : Utf8.encode text = more := (Utf8.decode_eq_ok_iff.1 hd).trans hread
          change _ = encodeField (some (.ofList text)) ++ left
          simp only [encodeField, String.toList_ofList, htext, List.cons_append, List.append_assoc]
          exact congrArg (quote :: ·) hmore
        · trivial
    · exact ⟨b :: rest, rfl, hi'⟩

/-- The byte that must follow a field stood in front of what is left. -/
theorem takes_after (row field columns : Nat) (h : feed.Carries Left Expected)
    (hi : i.Holds Left bytes) :
    Takes Left Expected
      (fun _ rest => bytes = (if field = columns then newline else comma) :: rest)
      (expectAfter feed row field columns i) := by
  unfold expectAfter
  generalize (if field = columns then newline else comma) = expected
  split
  · rename_i f i' hp
    exact h.of_peek hi hp
  · trivial
  · rename_i b i' hp
    obtain ⟨rest, rfl, -, hskip⟩ := h.of_peek hi hp
    split
    · rename_i hb
      exact ⟨rest, congrArg (· :: rest) hb, hskip⟩
    · trivial

/-! ### Rows -/

/-- One field and what follows it stood in front of the other fields of a row. -/
theorem takes_fields_cons (row columns left : Nat) (h : feed.Carries Left Expected)
    {From : List UInt8 → Row → List UInt8 → Prop} (hi : i.Holds Left bytes)
    (htail : ∀ {bytes i}, Input.Holds Left bytes i →
      Takes Left Expected (From bytes) (readFields feed row columns left i)) :
    Takes Left Expected
      (fun values rest => ∃ value values' bytes', values = value :: values' ∧
        bytes = encodeField value ++
          (if columns - left = columns then newline else comma) :: bytes' ∧
        From bytes' values' rest)
      (readFields feed row columns (left + 1) i) := by
  have hfield := takes_field row h hi
  have hafter {bytes i} (hi : Input.Holds Left bytes i) :=
    takes_after row (columns - left) columns h hi
  generalize (if columns - left = columns then newline else comma) = after at hafter ⊢
  rw [readFields]
  split <;> rename_i hr <;> rw [hr] at hfield
  · exact hfield.error
  obtain ⟨afterField, hvalue, hi₁⟩ := hfield
  have hbyte := hafter hi₁
  split <;> rename_i hr <;> rw [hr] at hbyte
  · exact hbyte.error
  obtain ⟨afterByte, rfl, hi₂⟩ := hbyte
  have hvalues := htail hi₂
  split <;> rename_i hr <;> rw [hr] at hvalues
  · exact hvalues.error
  obtain ⟨rest, hfrom, hi₃⟩ := hvalues
  exact ⟨rest, ⟨_, _, afterByte, rfl, hvalue, hfrom⟩, hi₃⟩

/-- The last fields of a row were written in front of what is left. -/
theorem takes_fields (row : Nat) (h : feed.Carries Left Expected) (left : Nat)
    (hle : left + 1 ≤ columns) (hi : i.Holds Left bytes) :
    Takes Left Expected
      (fun values rest => values.length = left + 1 ∧ bytes = encodeRow values ++ rest)
      (readFields feed row columns (left + 1) i) := by
  induction left generalizing i bytes with
  | zero =>
    have hnone {bytes i} (hi : Input.Holds Left bytes i) :
        Takes Left Expected (fun values rest => values = [] ∧ bytes = rest)
          (readFields feed row columns 0 i) := ⟨bytes, ⟨rfl, rfl⟩, hi⟩
    refine (takes_fields_cons row columns 0 h hi hnone).imp ?_
    rintro values rest ⟨value, _, bytes', rfl, hbytes, rfl, rfl⟩
    refine ⟨rfl, ?_⟩
    rw [hbytes, encodeRow, if_pos (Nat.sub_zero _), List.append_assoc]
    rfl
  | succ left ih =>
    refine (takes_fields_cons row columns (left + 1) h hi (ih (Nat.le_of_succ_le hle))).imp ?_
    rintro values rest ⟨value, values', bytes', rfl, hbytes, hlen, hrest⟩
    refine ⟨congrArg (· + 1) hlen, ?_⟩
    obtain ⟨value', values'', rfl⟩ := List.exists_cons_of_length_eq_add_one hlen
    have hne : ¬columns - (left + 1) = columns := by omega
    rw [hbytes, if_neg hne, hrest, encodeRow_cons_cons, List.append_assoc, List.cons_append]

/-- The next row was written in front of what is left, and the end is read from nothing. -/
theorem takes_nextRow (h : feed.Carries Left Expected) {r : Reader ρ} (hpos : 0 < r.columns)
    (hi : r.input.Holds Left bytes) :
    Takes Left Expected
      (fun answer rest => match answer with
        | some values => values.length = r.columns ∧ bytes = encodeRow values ++ rest
        | none => bytes = [] ∧ rest = [])
      ((r.nextRow feed).1, (r.nextRow feed).2.input) := by
  unfold Reader.nextRow
  rw [if_neg (Nat.ne_of_gt hpos)]
  split
  · rename_i f i' hp
    exact h.of_peek hi hp
  · rename_i i' hp
    obtain ⟨rfl, hi'⟩ := h.of_peek hi hp
    exact ⟨[], ⟨rfl, rfl⟩, hi'⟩
  · rename_i b i' hp
    obtain ⟨rest, rfl, hi', -⟩ := h.of_peek hi hp
    obtain ⟨left, hleft⟩ := Nat.exists_eq_add_one.2 hpos
    have hfields := takes_fields (r.rowsRead + 1) h left (Nat.le_of_eq hleft.symm) hi'
    rw [← hleft] at hfields
    split <;> rename_i hr <;> rw [hr] at hfields
    · exact hfields.error
    · exact hfields

/-! ### The dialect -/

/-- A reader counts the rows it has read and nothing else. -/
theorem rowsRead_nextRow (feed : Feed ρ) (r : Reader ρ) :
    (r.nextRow feed).2.rowsRead =
      match (r.nextRow feed).1 with
      | .ok (some _) => r.rowsRead + 1
      | _ => r.rowsRead := by
  unfold Reader.nextRow
  split
  · rfl
  · split
    · rfl
    · rfl
    · split <;> rfl

namespace Reader

/-- The bytes that a reader of pieces has not consumed. -/
def unread (r : Reader (List (List UInt8))) : List UInt8 := r.input.ready ++ r.input.rest.flatten

/-- The next answers of a reader. -/
def nextRows (feed : Feed ρ) : Nat → Reader ρ → List (Except ReadError (Option Row))
  | 0, _ => []
  | n + 1, r => (r.nextRow feed).1 :: nextRows feed n (r.nextRow feed).2

theorem holds_iff_unread {r : Reader (List (List UInt8))} {bytes : List UInt8} :
    r.input.Holds (fun bytes pieces => bytes = pieces.flatten) bytes ↔ r.unread = bytes := by
  unfold Input.Holds unread
  constructor
  · rintro ⟨rest, rfl, rfl⟩
    rfl
  · rintro rfl
    exact ⟨_, rfl, rfl⟩

theorem reads_pieces {r : Reader (List (List UInt8))} {answer : Option Row} {rest : List UInt8}
    (h : Reads (fun bytes pieces => bytes = pieces.flatten) (fun _ => False) answer rest
      ((r.nextRow .pieces).1, (r.nextRow .pieces).2.input)) :
    (r.nextRow .pieces).1 = .ok answer ∧ (r.nextRow .pieces).2.unread = rest := by
  rcases h with ⟨f, -, hf⟩ | ⟨hanswer, hrest⟩
  · exact hf.elim
  · exact ⟨hanswer, holds_iff_unread.1 hrest⟩

/-- From written rows the reader answers with these rows, and then with the end for good. -/
theorem nextRows_encodeRows (rows : List Row) (n : Nat) {r : Reader (List (List UInt8))}
    (hpos : 0 < r.columns) (hrows : ∀ row ∈ rows, row.length = r.columns)
    (hr : r.unread = encodeRows rows) :
    r.nextRows .pieces (rows.length + n) =
      rows.map (fun row => .ok (some row)) ++ List.replicate n (.ok none) := by
  induction rows generalizing r with
  | nil =>
    rw [List.length_nil, Nat.zero_add, List.map_nil, List.nil_append]
    induction n generalizing r with
    | zero => rfl
    | succ n ih =>
      obtain ⟨hanswer, hrest⟩ := reads_pieces (reads_end Feed.carries_pieces hpos
        (holds_iff_unread.2 hr))
      rw [nextRows, hanswer, ih (by rwa [columns_nextRow]) nofun hrest, List.replicate_succ]
  | cons row rows ih =>
    obtain ⟨hanswer, hrest⟩ := reads_pieces (reads_row Feed.carries_pieces hpos
      (hrows row List.mem_cons_self) (holds_iff_unread.2 hr))
    rw [List.length_cons, Nat.add_right_comm, nextRows, hanswer,
      ih (by rwa [columns_nextRow]) (by
        rw [columns_nextRow]
        exact fun row' hrow' => hrows row' (List.mem_cons_of_mem _ hrow')) hrest]
    rfl

/-- The reader reads a row and leaves a rest if and only if its input is the row as it is written,
followed by the rest; it reads the end if and only if there is no input; in every other case it
fails with a data failure, and then it counts no row. So from written rows it reads these rows and
then the end. Nothing is assumed of the pieces in which the input is handed out. -/
theorem nextRow_exact (r : Reader (List (List UInt8))) (hpos : 0 < r.columns) :
    (∀ row rest,
      ((r.nextRow .pieces).1 = .ok (some row) ∧ (r.nextRow .pieces).2.unread = rest) ↔
        row.length = r.columns ∧ r.unread = encodeRow row ++ rest) ∧
    ((r.nextRow .pieces).1 = .ok none ↔ r.unread = []) ∧
    (r.unread ≠ [] → (∀ row rest, row.length = r.columns → r.unread ≠ encodeRow row ++ rest) →
      ∃ e, (r.nextRow .pieces).1 = .error e ∧ e.toFailure.kind = .data ∧
        (r.nextRow .pieces).2.rowsRead = r.rowsRead) ∧
    (∀ rows n, (∀ row ∈ rows, row.length = r.columns) → r.unread = encodeRows rows →
      r.nextRows .pieces (rows.length + n) =
        rows.map (fun row => .ok (some row)) ++ List.replicate n (.ok none)) := by
  have htakes := takes_nextRow Feed.carries_pieces hpos (holds_iff_unread.2 rfl)
  have hcount := rowsRead_nextRow .pieces r
  refine ⟨fun row rest => ⟨?_, ?_⟩, ⟨?_, ?_⟩, ?_, fun rows n => nextRows_encodeRows rows n hpos⟩
  · rintro ⟨hanswer, rfl⟩
    rw [hanswer] at htakes
    obtain ⟨left, ⟨hlen, hbytes⟩, hleft⟩ := htakes
    exact ⟨hlen, (holds_iff_unread.1 hleft) ▸ hbytes⟩
  · rintro ⟨hlen, hbytes⟩
    exact reads_pieces (reads_row Feed.carries_pieces hpos hlen (holds_iff_unread.2 hbytes))
  · intro hanswer
    rw [hanswer] at htakes
    obtain ⟨left, ⟨hbytes, -⟩, -⟩ := htakes
    exact hbytes
  · intro hbytes
    exact (reads_pieces (reads_end Feed.carries_pieces hpos (holds_iff_unread.2 hbytes))).1
  · intro hne hno
    match hanswer : (r.nextRow .pieces).1, htakes with
    | .ok none, ⟨_, ⟨hbytes, _⟩, _⟩ => exact absurd hbytes hne
    | .ok (some row), ⟨rest, ⟨hlen, hbytes⟩, _⟩ => exact absurd hbytes (hno row rest hlen)
    | .error (.malformed fault), _ =>
      rw [hanswer] at hcount
      exact ⟨_, rfl, rfl, hcount⟩

/-- A doubled quote that is cut between its two bytes, a field without quotes, and a byte of the row
that follows. -/
def cutQuotes : Reader (List (List UInt8)) :=
  .ofPieces 2 [[0x22, 0x61, 0x22], [], [0x22, 0x62, 0x22, 0x2C, 0x0A, 0x78]]

/-- The row is read and the byte behind it is left. -/
theorem nextRow_exact_cutQuotes :
    0 < cutQuotes.columns ∧ (cutQuotes.nextRow .pieces).1 = .ok (some [some "a\"b", none]) ∧
      (cutQuotes.nextRow .pieces).2.unread = [0x78] :=
  ⟨by decide, ((nextRow_exact cutQuotes (by decide)).1 _ _).2 ⟨rfl, by decide⟩⟩

end Reader

end QueryResults.Csv
