import Mathlib
import QueryResults.Feed

/-!
# What a feed holds

The bytes that a feed still has to hand out are told by a relation between its states and byte
sequences. A feed *carries* the relation if every piece comes off the front of the bytes held, the
end is reached with none left, and it breaks only with faults that are expected of it. A feed that
is expected to break with no fault at all never breaks.

An input holds the bytes at hand and those that its feed holds. Looking at the next byte shows the
first byte held or finds the end, unless the feed breaks.

## Main definitions

* `Feed.Carries`, `Input.Holds`.

## Main results

* `Feed.Carries.keeping`: a feed that keeps something besides.
* `Feed.Carries.peek_cons`, `Feed.Carries.peek_nil`: what looking at the next byte shows.
* `Feed.Carries.of_peek`: what is known of the bytes held once it has shown something.
* `Feed.carries_pieces`: the feed of a list of pieces.
-/

namespace QueryResults

variable {ρ : Type} {feed : Feed ρ} {Left : List UInt8 → ρ → Prop} {Expected : StreamFault → Prop}

/-- A feed whose states hold bytes and that breaks only with faults that are expected. -/
structure Feed.Carries (feed : Feed ρ) (Left : List UInt8 → ρ → Prop)
    (Expected : StreamFault → Prop) : Prop where
  piece : ∀ {bytes b bs s s'}, Left bytes s → feed.pull s = (.piece b bs, s') →
    ∃ rest, bytes = b :: bs ++ rest ∧ Left rest s'
  finished : ∀ {bytes s s'}, Left bytes s → feed.pull s = (.finished, s') →
    bytes = [] ∧ Left [] s'
  broken : ∀ {bytes f s s'}, Left bytes s → feed.pull s = (.broken f, s') → Expected f

/-- What asking for a piece keeps may be demanded of the states as well, and it may rule faults
out. -/
theorem Feed.Carries.keeping {Kept : ρ → Prop} {Expected' : StreamFault → Prop}
    (h : feed.Carries Left Expected)
    (hkept : ∀ {bytes s}, Left bytes s → Kept s → Kept (feed.pull s).2)
    (hbroken : ∀ {bytes f s s'}, Left bytes s → Kept s → feed.pull s = (.broken f, s') →
      Expected' f) :
    feed.Carries (fun bytes s => Left bytes s ∧ Kept s) Expected' where
  piece {_ _ _ s s'} hs hp := by
    obtain ⟨rest, hb, hrest⟩ := h.piece hs.1 hp
    have hk := hkept hs.1 hs.2
    rw [hp] at hk
    exact ⟨rest, hb, hrest, hk⟩
  finished {_ s s'} hs hp := by
    obtain ⟨hb, hrest⟩ := h.finished hs.1 hp
    have hk := hkept hs.1 hs.2
    rw [hp] at hk
    exact ⟨hb, hrest, hk⟩
  broken hs hp := hbroken hs.1 hs.2 hp

/-- An input that holds bytes, some of them at hand and the others in its feed. -/
def Input.Holds (Left : List UInt8 → ρ → Prop) (bytes : List UInt8) (i : Input ρ) : Prop :=
  ∃ rest, bytes = i.ready ++ rest ∧ Left rest i.rest

variable {bytes : List UInt8} {b : UInt8} {i : Input ρ}

/-- The next byte that an input shows is the first it holds. -/
theorem Feed.Carries.peek_cons (h : feed.Carries Left Expected) (hi : i.Holds Left (b :: bytes)) :
    (∃ f i', i.peek feed = (.error f, i') ∧ Expected f) ∨
      ∃ i', i.peek feed = (.ok (some b), i') ∧ i'.Holds Left (b :: bytes) ∧
        i'.skip.Holds Left bytes := by
  obtain ⟨rest, hb, hrest⟩ := hi
  unfold Input.peek
  cases hready : i.ready with
  | cons b' more =>
    rw [hready, List.cons_append] at hb
    cases hb
    exact .inr ⟨i, rfl, ⟨rest, by rw [hready, List.cons_append], hrest⟩,
      ⟨rest, by rw [Input.skip, hready, List.tail_cons], hrest⟩⟩
  | nil =>
    rw [hready, List.nil_append] at hb
    subst hb
    simp only
    split
    · rename_i b' bs s' hp
      obtain ⟨rest', hb, hrest'⟩ := h.piece hrest hp
      cases hb
      exact .inr ⟨_, rfl, ⟨rest', rfl, hrest'⟩, ⟨rest', rfl, hrest'⟩⟩
    · rename_i s' hp
      cases (h.finished hrest hp).1
    · rename_i f s' hp
      exact .inl ⟨f, _, rfl, h.broken hrest hp⟩

/-- An input that holds nothing shows the end. -/
theorem Feed.Carries.peek_nil (h : feed.Carries Left Expected) (hi : i.Holds Left []) :
    (∃ f i', i.peek feed = (.error f, i') ∧ Expected f) ∨
      ∃ i', i.peek feed = (.ok none, i') ∧ i'.Holds Left [] := by
  obtain ⟨rest, hb, hrest⟩ := hi
  obtain ⟨hready, rfl⟩ := List.append_eq_nil_iff.1 hb.symm
  unfold Input.peek
  rw [hready]
  simp only
  split
  · rename_i b bs s' hp
    obtain ⟨rest', hb, -⟩ := h.piece hrest hp
    cases hb
  · rename_i s' hp
    exact .inr ⟨_, rfl, ⟨[], rfl, (h.finished hrest hp).2⟩⟩
  · rename_i f s' hp
    exact .inl ⟨f, _, rfl, h.broken hrest hp⟩

/-- What looking at the next byte has shown tells what the input holds. -/
theorem Feed.Carries.of_peek (h : feed.Carries Left Expected) (hi : i.Holds Left bytes)
    {x : Except StreamFault (Option UInt8)} {i' : Input ρ} (hp : i.peek feed = (x, i')) :
    match x with
    | .error f => Expected f
    | .ok none => bytes = [] ∧ i'.Holds Left []
    | .ok (some b) => ∃ rest, bytes = b :: rest ∧ i'.Holds Left (b :: rest) ∧
        i'.skip.Holds Left rest := by
  cases bytes with
  | nil =>
    rcases h.peek_nil hi with ⟨f, i'', hp', hf⟩ | ⟨i'', hp', hi'⟩ <;> cases hp'.symm.trans hp
    · exact hf
    · exact ⟨rfl, hi'⟩
  | cons b bytes =>
    rcases h.peek_cons hi with ⟨f, i'', hp', hf⟩ | ⟨i'', hp', hi', hskip⟩ <;>
      cases hp'.symm.trans hp
    · exact hf
    · exact ⟨bytes, rfl, hi', hskip⟩

theorem Feed.flatten_pullPieces (pieces : List (List UInt8)) :
    match Feed.pullPieces pieces with
    | (.piece b bs, rest) => pieces.flatten = b :: bs ++ rest.flatten
    | (.finished, rest) => pieces.flatten = [] ∧ rest = []
    | (.broken _, _) => False := by
  fun_induction Feed.pullPieces pieces with
  | case1 => exact ⟨rfl, rfl⟩
  | case2 rest ih => exact ih
  | case3 b bs rest => rfl

/-- A list of pieces is a feed of their bytes that never breaks. -/
theorem Feed.carries_pieces :
    Feed.pieces.Carries (fun bytes pieces => bytes = pieces.flatten) fun _ => False where
  piece {_ b bs pieces rest} hs hp := by
    have h := Feed.flatten_pullPieces pieces
    rw [show Feed.pullPieces pieces = _ from hp] at h
    exact ⟨rest.flatten, hs.trans h, rfl⟩
  finished {_ pieces rest} hs hp := by
    have h := Feed.flatten_pullPieces pieces
    rw [show Feed.pullPieces pieces = _ from hp] at h
    exact ⟨hs.trans h.1, by rw [h.2]; rfl⟩
  broken {_ f pieces rest} _ hp := by
    have h := Feed.flatten_pullPieces pieces
    rw [show Feed.pullPieces pieces = _ from hp] at h
    exact h

end QueryResults
