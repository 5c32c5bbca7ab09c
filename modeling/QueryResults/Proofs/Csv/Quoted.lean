import QueryResults.Csv.Reader

/-!
# Quoted texts byte by byte

The body of a quoted field is taken piece by piece: what is at hand up to a quote goes into the text
at once, and whether the quote closes the field is seen from the byte behind it, which may belong to
another piece. *Scanned* byte by byte, with a mark for a quote that is consumed and not yet
understood, the body comes to the same text or fault and leaves the same input. What is proved about
quoted fields goes by single bytes from here.

## Main definitions

* `Csv.scanQuoted`: the body of a quoted field byte by byte.

## Main results

* `Csv.scanQuoted_of_ready`: bytes at hand that are no quotes are scanned at once.
* `Csv.readQuoted_eq_scanQuoted`: piece by piece and byte by byte is the same.
-/

namespace QueryResults

variable {ρ : Type} {feed : Feed ρ}

/-- What has been shown is shown again. -/
theorem Input.peek_of_peek {i i' : Input ρ} {b : UInt8} (h : i.peek feed = (.ok (some b), i')) :
    i'.peek feed = (.ok (some b), i') := by
  obtain ⟨more, hready⟩ := Input.ready_of_peek feed h
  simp only [Input.peek, hready]

namespace Csv

open Input (smaller_wf skip_smaller_of_peek)

/-- Reads the body of a quoted field byte by byte. `read` holds the bytes read so far, the last one
first; `atQuote` says that a quote was consumed of which it is not yet known whether it closes the
field. -/
def scanQuoted (feed : Feed ρ) (row : Nat) (read : List UInt8) (atQuote : Bool) (i : Input ρ) :
    Except ReadError (List UInt8) × Input ρ :=
  match _h : Input.peek feed i with
  | (.error f, i') => (.error (.source f), i')
  | (.ok none, i') =>
    if atQuote then (.ok read.reverse, i') else (.error (.malformed (.unterminated row)), i')
  | (.ok (some b), i') =>
    match atQuote, decide (b = quote) with
    | true, true => scanQuoted feed row (quote :: read) false i'.skip
    | true, false => (.ok read.reverse, i')
    | false, true => scanQuoted feed row read true i'.skip
    | false, false => scanQuoted feed row (b :: read) false i'.skip
termination_by (smaller_wf feed).wrap i
decreasing_by all_goals exact skip_smaller_of_peek feed _h

/-- What scanning the body of a quoted field does with the next byte. -/
theorem scanQuoted_eq (feed : Feed ρ) (row : Nat) (read : List UInt8) (atQuote : Bool)
    (i : Input ρ) :
    scanQuoted feed row read atQuote i =
      match Input.peek feed i with
      | (.error f, i') => (.error (.source f), i')
      | (.ok none, i') =>
        if atQuote then (.ok read.reverse, i') else (.error (.malformed (.unterminated row)), i')
      | (.ok (some b), i') =>
        match atQuote, decide (b = quote) with
        | true, true => scanQuoted feed row (quote :: read) false i'.skip
        | true, false => (.ok read.reverse, i')
        | false, true => scanQuoted feed row read true i'.skip
        | false, false => scanQuoted feed row (b :: read) false i'.skip := by
  rw [scanQuoted.eq_def]
  split <;> rename_i h <;> exact h ▸ rfl

variable {row : Nat} {read : List UInt8} {i i' : Input ρ} {b : UInt8}

/-- Scanning does not depend on whether the next byte has been looked at before. -/
theorem scanQuoted_of_peek {atQuote : Bool} (h : i.peek feed = (.ok (some b), i')) :
    scanQuoted feed row read atQuote i = scanQuoted feed row read atQuote i' := by
  rw [scanQuoted_eq, scanQuoted_eq feed row read atQuote i', h, Input.peek_of_peek h]

/-- Bytes at hand that are no quotes go into the text. -/
theorem scanQuoted_of_ready {text more : List UInt8} (hready : i.ready = text ++ more)
    (htext : quote ∉ text) :
    scanQuoted feed row read false i =
      scanQuoted feed row (text.reverse ++ read) false { i with ready := more } := by
  induction text generalizing read i with
  | nil =>
    have hi : { i with ready := more } = i := by rw [← hready.trans (List.nil_append more)]
    rw [hi, List.reverse_nil, List.nil_append]
  | cons b text ih =>
    obtain ⟨hb, htext⟩ := not_or.1 (mt List.mem_cons.2 htext)
    have hpeek : i.peek feed = (.ok (some b), i) := by
      simp only [Input.peek, hready, List.cons_append]
    have hskip : i.skip.ready = text ++ more := by
      rw [Input.skip, hready, List.cons_append, List.tail_cons]
    rw [scanQuoted_eq, hpeek]
    simp only [decide_eq_false (Ne.symm hb)]
    rw [ih hskip htext, List.reverse_cons, List.append_assoc, List.singleton_append]
    rfl

/-- The first quote at hand ends the text in front of it, and what it means is seen next. -/
theorem scanQuoted_of_quote {text more : List UInt8} (hready : i.ready = text ++ quote :: more)
    (htext : quote ∉ text) :
    scanQuoted feed row read false i =
      scanQuoted feed row (text.reverse ++ read) true { i with ready := more } := by
  rw [scanQuoted_of_ready hready htext, scanQuoted_eq]
  rfl

/-- Where a quote stands first in some bytes. -/
theorem eq_take_append_of_idxOf? {bytes : List UInt8} {n : Nat} (h : bytes.idxOf? quote = some n) :
    bytes = bytes.take n ++ quote :: bytes.drop (n + 1) ∧ quote ∉ bytes.take n := by
  obtain ⟨hlt, hquote, hbefore⟩ := List.idxOf?_eq_some_iff.1 h
  constructor
  · rw [← hquote, List.getElem_cons_drop, List.take_append_drop]
  · intro hmem
    obtain ⟨j, hj, hjq⟩ := List.getElem_of_mem hmem
    rw [List.getElem_take] at hjq
    exact hbefore j (Nat.lt_of_lt_of_le hj (List.length_take_le _ _)) hjq

/-- The text read so far, in the order in which scanning keeps it. -/
theorem reverse_flatten_cons (text : List UInt8) (before : List (List UInt8)) :
    (text :: before).reverse.flatten.reverse = text.reverse ++ before.reverse.flatten.reverse := by
  simp

/-- Scanning up to the first quote at hand. -/
theorem scanQuoted_of_idxOf? {n : Nat} (hp : i.peek feed = (.ok (some b), i'))
    (hn : i'.ready.idxOf? quote = some n) (before : List (List UInt8)) :
    scanQuoted feed row before.reverse.flatten.reverse false i =
      scanQuoted feed row (i'.ready.take n :: before).reverse.flatten.reverse true
        (i'.consume (n + 1)) := by
  obtain ⟨hready, htext⟩ := eq_take_append_of_idxOf? hn
  rw [scanQuoted_of_peek hp, scanQuoted_of_quote hready htext, reverse_flatten_cons]
  rfl

/-- Reading piece by piece and scanning byte by byte is the same. -/
theorem readQuoted_eq_scanQuoted (feed : Feed ρ) (row : Nat) (before : List (List UInt8))
    (i : Input ρ) :
    readQuoted feed row before i =
      scanQuoted feed row before.reverse.flatten.reverse false i := by
  fun_induction readQuoted feed row before i with
  | case1 before i f i' hp =>
    rw [scanQuoted_eq, hp]
  | case2 before i i' hp =>
    rw [scanQuoted_eq, hp]
    rfl
  | case3 before i b i' hp hnone ih =>
    have hready : i'.ready = i'.ready ++ [] := (List.append_nil _).symm
    rw [ih, scanQuoted_of_peek hp, scanQuoted_of_ready hready (List.idxOf?_eq_none_iff.1 hnone),
      reverse_flatten_cons, Input.consume, List.drop_length]
  | case4 before i b i' hp n hn f i'' hp' =>
    rw [scanQuoted_of_idxOf? hp hn, scanQuoted_eq, hp']
  | case5 before i b i' hp n hn read i'' hp' =>
    rw [scanQuoted_of_idxOf? hp hn, scanQuoted_eq, hp', List.reverse_reverse]
    rfl
  | case6 before i b i' hp n hn read i'' hp' ih =>
    rw [scanQuoted_of_idxOf? hp hn, scanQuoted_eq, hp', ih, reverse_flatten_cons [quote]]
    simp only [decide_true]
    rfl
  | case7 before i b i' hp n hn read b' i'' hp' hb =>
    rw [scanQuoted_of_idxOf? hp hn, scanQuoted_eq, hp', List.reverse_reverse]
    simp only [decide_eq_false hb]
    rfl

/-- The same for a text that begins. -/
theorem readQuoted_nil (feed : Feed ρ) (row : Nat) (i : Input ρ) :
    readQuoted feed row [] i = scanQuoted feed row [] false i :=
  readQuoted_eq_scanQuoted feed row [] i

end Csv

end QueryResults
