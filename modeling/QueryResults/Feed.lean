import QueryResults.StreamFault

/-!
# Feeds of bytes

A feed hands out bytes piece by piece until it ends or breaks. Every piece holds at least one byte,
and a feed carries a well-founded order in which each piece leaves a smaller rest, so whoever reads
a feed to its end terminates.

An `Input` is a feed together with the bytes already handed out and not yet consumed. Its bytes are
looked at and consumed from the front; the feed is asked for a piece only when none are left, so
what is at hand is never more than a piece.

## Main definitions

* `Feed`, `Feed.Pull`: asking for one more piece.
* `Feed.cut`, `Feed.pieces`: the pieces of a byte sequence, and the feed of a list of pieces.
* `Feed.readAll`: all that a feed hands out.
* `Input`, `Input.peek`, `Input.skip`, `Input.consume`.

## Main results

* `Input.skip_smaller_of_peek`, `Input.consume_smaller_of_peek`: consuming bytes makes an input
  smaller.
-/

namespace QueryResults

/-- What a feed answers when it is asked for a piece. -/
inductive Feed.Pull where
  /-- One byte or more. -/
  | piece (first : UInt8) (more : List UInt8)
  /-- Nothing more will come. -/
  | finished
  /-- The feed broke. -/
  | broken (f : StreamFault)
  deriving Repr

/-- A source of bytes with states in `ρ`. -/
structure Feed (ρ : Type) where
  /-- Asks for one more piece. -/
  pull : ρ → Feed.Pull × ρ
  /-- When less is left in one state than in another. -/
  Smaller : ρ → ρ → Prop
  /-- What is left cannot shrink forever. -/
  wf : WellFounded Smaller
  /-- Each piece leaves less. -/
  pull_smaller : ∀ {s s' : ρ} {b : UInt8} {bs : List UInt8}, pull s = (.piece b bs, s') →
    Smaller s' s

namespace Feed

/-- Asking a list of pieces for the next one that is not empty. -/
def pullPieces : List (List UInt8) → Pull × List (List UInt8)
  | [] => (.finished, [])
  | [] :: rest => pullPieces rest
  | (b :: bs) :: rest => (.piece b bs, rest)

theorem length_lt_of_pullPieces {l l' : List (List UInt8)} {b : UInt8} {bs : List UInt8}
    (h : pullPieces l = (.piece b bs, l')) : l'.length < l.length := by
  induction l with
  | nil => simp [pullPieces] at h
  | cons x l ih =>
    cases x with
    | nil =>
      have := ih h
      simp only [List.length_cons]
      omega
    | cons y ys =>
      simp only [pullPieces, Prod.mk.injEq] at h
      simp [h.2]

/-- The pieces of `size` bytes that a byte sequence is cut into, the last one perhaps shorter. No
piece is empty. -/
def cut (size : Nat) (bytes : List UInt8) : List (List UInt8) :=
  match bytes with
  | [] => []
  | b :: rest => (b :: rest.take (size - 1)) :: cut size (rest.drop (size - 1))
termination_by bytes.length
decreasing_by
  simp only [List.length_drop, List.length_cons]
  omega

/-- The feed that hands out the pieces of a list in order. -/
def pieces : Feed (List (List UInt8)) where
  pull := pullPieces
  Smaller l' l := l'.length < l.length
  wf := InvImage.wf List.length Nat.lt_wfRel.wf
  pull_smaller := length_lt_of_pullPieces

/-- All that was read from a feed: the bytes, and the fault it broke with, if it did. -/
structure Whole where
  bytes : List UInt8
  fault : Option StreamFault
  deriving Repr

/-- Reads a feed until it ends or breaks. `before` holds the pieces read so far, the last one
first. -/
def readAll {ρ : Type} (feed : Feed ρ) (before : List (List UInt8)) (s : ρ) : Whole × ρ :=
  match _h : feed.pull s with
  | (.finished, s') => (⟨before.reverse.flatten, none⟩, s')
  | (.broken f, s') => (⟨before.reverse.flatten, some f⟩, s')
  | (.piece b bs, s') => readAll feed ((b :: bs) :: before) s'
termination_by feed.wf.wrap s
decreasing_by exact feed.pull_smaller _h

end Feed

/-- A feed's state and the bytes it has handed out that are not yet consumed. -/
structure Input (ρ : Type) where
  ready : List UInt8
  rest : ρ
  deriving Repr

namespace Input

variable {ρ : Type} (feed : Feed ρ)

/-- When less is left of one input than of another: less of its feed, or as much of its feed and
fewer bytes at hand. -/
def Smaller (i j : Input ρ) : Prop :=
  Prod.Lex feed.Smaller (· < ·) (i.rest, i.ready.length) (j.rest, j.ready.length)

theorem smaller_wf : WellFounded (Smaller feed) :=
  InvImage.wf (fun i : Input ρ => (i.rest, i.ready.length))
    (Prod.lex ⟨feed.Smaller, feed.wf⟩ Nat.lt_wfRel).wf

/-- The next byte, left in place; none at the end. -/
def peek (i : Input ρ) : Except StreamFault (Option UInt8) × Input ρ :=
  match i.ready with
  | b :: _ => (.ok (some b), i)
  | [] =>
    match feed.pull i.rest with
    | (.piece b bs, rest) => (.ok (some b), ⟨b :: bs, rest⟩)
    | (.finished, rest) => (.ok none, ⟨[], rest⟩)
    | (.broken f, rest) => (.error f, ⟨[], rest⟩)

/-- Consumes the byte that `peek` has shown. -/
def skip (i : Input ρ) : Input ρ := { i with ready := i.ready.tail }

/-- Consumes `n` of the bytes at hand. -/
def consume (n : Nat) (i : Input ρ) : Input ρ := { i with ready := i.ready.drop n }

/-- The byte that is shown is the first at hand. -/
theorem ready_of_peek {i i' : Input ρ} {b : UInt8} (h : peek feed i = (.ok (some b), i')) :
    ∃ more, i'.ready = b :: more := by
  unfold peek at h
  split at h
  · rename_i hr
    cases h
    exact ⟨_, hr⟩
  · split at h
    · cases h
      exact ⟨_, rfl⟩
    · cases h
    · cases h

/-- Consuming bytes makes an input smaller. -/
theorem consume_smaller_of_peek {i i' : Input ρ} {b : UInt8} {n : Nat} (hn : 0 < n)
    (h : peek feed i = (.ok (some b), i')) : Smaller feed (i'.consume n) i := by
  unfold peek at h
  split at h
  · rename_i b' bs hr
    cases h
    refine .right _ ?_
    simp only [consume, hr, List.length_drop, List.length_cons]
    omega
  · split at h
    · rename_i hp
      cases h
      exact .left _ _ (feed.pull_smaller hp)
    · cases h
    · cases h

/-- Consuming a byte makes an input smaller. -/
theorem skip_smaller_of_peek {i i' : Input ρ} {b : UInt8} (h : peek feed i = (.ok (some b), i')) :
    Smaller feed (skip i') i := by
  have hskip : skip i' = i'.consume 1 := by rw [skip, consume, List.drop_one]
  rw [hskip]
  exact consume_smaller_of_peek feed Nat.one_pos h

end Input

end QueryResults
