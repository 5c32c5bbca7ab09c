/-!
# Interrupts

Whoever waits holds a token, and whoever wants to interrupt the wait cancels the token. A token may
stand below another; cancelling a token cancels all that stand below it, and no others. A cancelled
token stays cancelled.

Of all tokens one is the *root*, below which operations place theirs. Interrupting everything puts a
new root in its place and then cancels the old one: what stands below the old root is interrupted,
and what begins afterwards is not.

## Main definitions

* `Token`, `Interrupts`.
* `Interrupts.fresh`, `Interrupts.below`: new tokens.
* `Interrupts.cancel`, `Interrupts.isCancelled`.
* `Interrupts.replace`, `Interrupts.interruptAll`: what becomes of the root.
-/

namespace QueryResults

/-- A token, known by its number, and the numbers of the tokens it stands below. -/
structure Token where
  number : Nat
  above : List Nat := []
  deriving DecidableEq, Repr

/-- The numbers that cancel a token. -/
def Token.line (t : Token) : List Nat := t.number :: t.above

/-- How many tokens were issued, which of them were cancelled, and the root. -/
structure Interrupts where
  issued : Nat := 1
  cancelled : List Nat := []
  root : Token := { number := 0 }
  deriving DecidableEq, Repr

namespace Interrupts

/-- A token that stands below no other. -/
def fresh (i : Interrupts) : Token × Interrupts :=
  ({ number := i.issued }, { i with issued := i.issued + 1 })

/-- A new token below another. -/
def below (t : Token) (i : Interrupts) : Token × Interrupts :=
  ({ number := i.issued, above := t.line }, { i with issued := i.issued + 1 })

/-- A new token below the root. -/
def operation (i : Interrupts) : Token × Interrupts := i.below i.root

/-- Cancels a token. -/
def cancel (t : Token) (i : Interrupts) : Interrupts :=
  { i with cancelled := t.number :: i.cancelled }

/-- Whether a token is cancelled. -/
def isCancelled (i : Interrupts) (t : Token) : Bool := t.line.any i.cancelled.contains

/-- Puts a new token in the place of the root. -/
def replace (i : Interrupts) : Interrupts := { i.fresh.2 with root := i.fresh.1 }

/-- Interrupts all operations that have begun. -/
def interruptAll (i : Interrupts) : Interrupts :=
  { i.fresh.2 with root := i.fresh.1 }.cancel i.root

/-- A token in place of one that is cancelled; any other is kept. -/
def renew (t : Token) (i : Interrupts) : Token × Interrupts :=
  if i.isCancelled t then i.fresh else (t, i)

/-- Everything is interrupted by a new root and then the end of the old one. -/
theorem interruptAll_eq (i : Interrupts) : i.interruptAll = i.replace.cancel i.root := rfl

theorem isCancelled_iff {i : Interrupts} {t : Token} :
    i.isCancelled t = true ↔ ∃ n ∈ t.line, n ∈ i.cancelled := by
  simp [isCancelled]

theorem isCancelled_cancel {i : Interrupts} {t u : Token} :
    (i.cancel t).isCancelled u = true ↔ t.number ∈ u.line ∨ i.isCancelled u = true := by
  simp only [isCancelled_iff, cancel, List.mem_cons]
  constructor
  · rintro ⟨n, hn, rfl | hc⟩
    · exact .inl hn
    · exact .inr ⟨n, hn, hc⟩
  · rintro (hn | ⟨n, hn, hc⟩)
    · exact ⟨_, hn, .inl rfl⟩
    · exact ⟨n, hn, .inr hc⟩

end Interrupts

end QueryResults
