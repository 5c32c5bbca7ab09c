import QueryResults.Proofs.Csv.Acceptance

/-!
# The cut of the input does not count

Two feeds that never break may hand out the same bytes in different pieces. Readers of rows over
them go hand in hand: asked for a row they answer alike, be it with a row, with the end or with what
is wrong, and they leave the same bytes unread. So they answer alike however often they are asked,
behind malformed rows as well. Wherever an input is cut, between the two quotes of a doubled quote,
behind a closing quote or within a character, it is read as if it came in one piece.

## Main definitions

* `Csv.Alike`, `Csv.Reader.Alike`: the same outcome, with the same bytes left.
* `Csv.Reader.after`: a reader that has been asked some times.

## Main results

* `Csv.alike_quoted`, `Csv.alike_field`, `Csv.alike_after`, `Csv.alike_fields`.
* `Csv.Reader.Alike.nextRow`, `Csv.Reader.Alike.nextRows`: readers go hand in hand.
* `Csv.Reader.nextRows_flatten`: an input in pieces and in one piece.
-/

namespace QueryResults

variable {ρ τ : Type} {feed : Feed ρ} {feed' : Feed τ} {Left : List UInt8 → ρ → Prop}
  {Left' : List UInt8 → τ → Prop}

/-- What an input shows whose feed never breaks. -/
theorem Feed.Carries.peek_head (h : feed.Carries Left fun _ => False) {i : Input ρ}
    {bytes : List UInt8} (hi : i.Holds Left bytes) :
    ∃ j, i.peek feed = (.ok bytes.head?, j) ∧ j.Holds Left bytes ∧
      (bytes ≠ [] → j.skip.Holds Left bytes.tail) := by
  cases bytes with
  | nil =>
    rcases h.peek_nil hi with ⟨f, j, hp, hf⟩ | ⟨j, hp, hj⟩
    · exact hf.elim
    · exact ⟨j, hp, hj, fun hne => absurd rfl hne⟩
  | cons b bytes =>
    rcases h.peek_cons hi with ⟨f, j, hp, hf⟩ | ⟨j, hp, hj, hskip⟩
    · exact hf.elim
    · exact ⟨j, hp, hj, fun _ => hskip⟩

namespace Csv

variable {α : Type} {i : Input ρ} {i' : Input τ} {bytes : List UInt8}

/-- Two readings that have come to the same and leave the same bytes. -/
def Alike (Left : List UInt8 → ρ → Prop) (Left' : List UInt8 → τ → Prop)
    (r : Except ReadError α × Input ρ) (r' : Except ReadError α × Input τ) : Prop :=
  r.1 = r'.1 ∧ ∃ rest, r.2.Holds Left rest ∧ r'.2.Holds Left' rest

theorem Alike.intro {x : Except ReadError α} (hi : i.Holds Left bytes)
    (hi' : i'.Holds Left' bytes) : Alike Left Left' (x, i) (x, i') :=
  ⟨rfl, bytes, hi, hi'⟩

/-- What two readings that are alike have come to, and the inputs they leave. -/
theorem Alike.exists_eq {r : Except ReadError α × Input ρ} {r' : Except ReadError α × Input τ}
    (h : Alike Left Left' r r') :
    ∃ x i i' rest, r = (x, i) ∧ r' = (x, i') ∧ Input.Holds Left rest i ∧
      Input.Holds Left' rest i' := by
  obtain ⟨x, i⟩ := r
  obtain ⟨x', i'⟩ := r'
  obtain ⟨hx, rest, hi, hi'⟩ := h
  exact ⟨x, i, i', rest, rfl, congrArg (·, i') hx.symm, hi, hi'⟩

/-! ### Rows -/

variable (h : feed.Carries Left fun _ => False) (h' : feed'.Carries Left' fun _ => False)

include h h'

/-- The body of a quoted field, by the bytes that are held. -/
theorem alike_scanQuoted (row : Nat) (read : List UInt8) (atQuote : Bool)
    (hi : i.Holds Left bytes) (hi' : i'.Holds Left' bytes) :
    Alike Left Left' (scanQuoted feed row read atQuote i)
      (scanQuoted feed' row read atQuote i') := by
  induction bytes generalizing read atQuote i i' with
  | nil =>
    obtain ⟨j, hp, hj, -⟩ := h.peek_head hi
    obtain ⟨j', hp', hj', -⟩ := h'.peek_head hi'
    rw [scanQuoted_eq, scanQuoted_eq, hp, hp']
    cases atQuote with
    | false => exact .intro hj hj'
    | true => exact .intro hj hj'
  | cons b bytes ih =>
    obtain ⟨j, hp, hj, hskip⟩ := h.peek_head hi
    obtain ⟨j', hp', hj', hskip'⟩ := h'.peek_head hi'
    have hnext (read : List UInt8) (atQuote : Bool) :=
      ih read atQuote (hskip (List.cons_ne_nil _ _)) (hskip' (List.cons_ne_nil _ _))
    rw [scanQuoted_eq, scanQuoted_eq, hp, hp']
    cases atQuote with
    | false =>
      cases hb : decide (b = quote) with
      | false => simpa only [List.head?_cons, hb] using hnext (b :: read) false
      | true => simpa only [List.head?_cons, hb] using hnext read true
    | true =>
      cases hb : decide (b = quote) with
      | false => simpa only [List.head?_cons, hb] using Alike.intro hj hj'
      | true => simpa only [List.head?_cons, hb] using hnext (quote :: read) false

theorem alike_quoted (row : Nat) (hi : i.Holds Left bytes) (hi' : i'.Holds Left' bytes) :
    Alike Left Left' (readQuoted feed row [] i) (readQuoted feed' row [] i') := by
  rw [readQuoted_nil, readQuoted_nil]
  exact alike_scanQuoted h h' row [] false hi hi'

theorem alike_field (row : Nat) (hi : i.Holds Left bytes) (hi' : i'.Holds Left' bytes) :
    Alike Left Left' (readField feed row i) (readField feed' row i') := by
  obtain ⟨j, hp, hj, hskip⟩ := h.peek_head hi
  obtain ⟨j', hp', hj', hskip'⟩ := h'.peek_head hi'
  unfold readField
  rw [hp, hp']
  cases bytes with
  | nil => exact .intro hj hj'
  | cons b bytes =>
    simp only [List.head?_cons]
    split
    · obtain ⟨x, i₁, i₁', rest, hr, hr', hi₁, hi₁'⟩ := (alike_quoted h h' row
        (hskip (List.cons_ne_nil _ _)) (hskip' (List.cons_ne_nil _ _))).exists_eq
      rw [hr, hr']
      cases x with
      | error e => exact .intro hi₁ hi₁'
      | ok read =>
        simp only
        split
        · exact .intro hi₁ hi₁'
        · exact .intro hi₁ hi₁'
    · exact .intro hj hj'

theorem alike_after (row field columns : Nat) (hi : i.Holds Left bytes)
    (hi' : i'.Holds Left' bytes) :
    Alike Left Left' (expectAfter feed row field columns i)
      (expectAfter feed' row field columns i') := by
  obtain ⟨j, hp, hj, hskip⟩ := h.peek_head hi
  obtain ⟨j', hp', hj', hskip'⟩ := h'.peek_head hi'
  unfold expectAfter
  generalize (if field = columns then newline else comma) = expected
  rw [hp, hp']
  cases bytes with
  | nil => exact .intro hj hj'
  | cons b bytes =>
    simp only [List.head?_cons]
    split
    · exact .intro (hskip (List.cons_ne_nil _ _)) (hskip' (List.cons_ne_nil _ _))
    · exact .intro hj hj'

theorem alike_fields (row columns left : Nat) (hi : i.Holds Left bytes)
    (hi' : i'.Holds Left' bytes) :
    Alike Left Left' (readFields feed row columns left i)
      (readFields feed' row columns left i') := by
  induction left generalizing i i' bytes with
  | zero => exact .intro hi hi'
  | succ left ih =>
    unfold readFields
    obtain ⟨x, i₁, i₁', rest, hr, hr', hi₁, hi₁'⟩ := (alike_field h h' row hi hi').exists_eq
    rw [hr, hr']
    cases x with
    | error e => exact .intro hi₁ hi₁'
    | ok value =>
      obtain ⟨y, i₂, i₂', rest₂, hr, hr', hi₂, hi₂'⟩ :=
        (alike_after h h' row (columns - left) columns hi₁ hi₁').exists_eq
      simp only [hr, hr']
      cases y with
      | error e => exact .intro hi₂ hi₂'
      | ok u =>
        obtain ⟨z, i₃, i₃', rest₃, hr, hr', hi₃, hi₃'⟩ := (ih hi₂ hi₂').exists_eq
        simp only [hr, hr']
        cases z with
        | error e => exact .intro hi₃ hi₃'
        | ok values => exact .intro hi₃ hi₃'

/-! ### Readers -/

omit h h'

namespace Reader

/-- Readers of rows with the same number of fields that have read as many rows and hold the same
bytes. -/
structure Alike (Left : List UInt8 → ρ → Prop) (Left' : List UInt8 → τ → Prop) (r : Reader ρ)
    (r' : Reader τ) : Prop where
  columns : r.columns = r'.columns
  rowsRead : r.rowsRead = r'.rowsRead
  input : ∃ bytes, r.input.Holds Left bytes ∧ r'.input.Holds Left' bytes

/-- The reader that is left when it has been asked for a row `n` times. -/
def after (feed : Feed ρ) (n : Nat) (r : Reader ρ) : Reader ρ :=
  (fun r => (r.nextRow feed).2)^[n] r

variable {r : Reader ρ} {r' : Reader τ}

include h h'

/-- Readers that are alike answer alike and stay so. -/
theorem Alike.nextRow (hr : Alike Left Left' r r') :
    (r.nextRow feed).1 = (r'.nextRow feed').1 ∧
      Alike Left Left' (r.nextRow feed).2 (r'.nextRow feed').2 := by
  obtain ⟨hcolumns, hrows, bytes, hi, hi'⟩ := hr
  obtain ⟨j, hp, hj, -⟩ := h.peek_head hi
  obtain ⟨j', hp', hj', -⟩ := h'.peek_head hi'
  unfold Reader.nextRow
  rw [hp, hp', ← hcolumns, ← hrows]
  split
  · exact ⟨rfl, hcolumns, hrows, bytes, hi, hi'⟩
  · cases bytes with
    | nil => exact ⟨rfl, rfl, rfl, [], hj, hj'⟩
    | cons b bytes =>
      obtain ⟨x, i₁, i₁', rest, hr, hr', hi₁, hi₁'⟩ :=
        (alike_fields h h' (r.rowsRead + 1) r.columns r.columns hj hj').exists_eq
      simp only [List.head?_cons, hr, hr']
      cases x with
      | error e => exact ⟨rfl, rfl, rfl, rest, hi₁, hi₁'⟩
      | ok row => exact ⟨rfl, rfl, rfl, rest, hi₁, hi₁'⟩

/-- They go hand in hand however often they are asked. -/
theorem Alike.nextRows (hr : Alike Left Left' r r') (n : Nat) :
    r.nextRows feed n = r'.nextRows feed' n ∧
      Alike Left Left' (r.after feed n) (r'.after feed' n) := by
  induction n generalizing r r' with
  | zero => exact ⟨rfl, hr⟩
  | succ n ih =>
    obtain ⟨hanswer, hnext⟩ := hr.nextRow h h'
    obtain ⟨hanswers, hafter⟩ := ih hnext
    exact ⟨by rw [Reader.nextRows, Reader.nextRows, hanswer, hanswers], hafter⟩

omit h h'

/-- However an input is cut into pieces, a reader over them answers every call as a reader does to
which the input is handed out in one piece, with rows, with the end, and with what is wrong, and
goes on behind what is wrong in the same way; after every call it has counted the same number of
rows and left the same bytes. -/
theorem nextRows_flatten (columns : Nat) (pieces : List (List UInt8)) (n : Nat) :
    let cut := ofPieces columns pieces
    let whole := ofPieces columns [pieces.flatten]
    cut.nextRows .pieces n = whole.nextRows .pieces n ∧
      (cut.after .pieces n).rowsRead = (whole.after .pieces n).rowsRead ∧
      (cut.after .pieces n).unread = (whole.after .pieces n).unread := by
  intro cut whole
  have hwhole : whole.unread = cut.unread := by simp [whole, cut, unread, ofPieces]
  have hstart : Alike (fun bytes pieces => bytes = pieces.flatten)
      (fun bytes pieces => bytes = pieces.flatten) cut whole :=
    ⟨rfl, rfl, cut.unread, holds_iff_unread.2 rfl, holds_iff_unread.2 hwhole⟩
  obtain ⟨hanswers, -, hrows, bytes, hi, hi'⟩ :=
    hstart.nextRows Feed.carries_pieces Feed.carries_pieces n
  exact ⟨hanswers, hrows, (holds_iff_unread.1 hi).trans (holds_iff_unread.1 hi').symm⟩

end Reader

end Csv

end QueryResults
