import QueryResults.Interrupts

/-!
# The world around a cursor

A cursor changes its own state, and works in a world: the interrupts, and the state of the services
it uses. A service sees the whole world, so whoever provides one may let an interrupt happen while
it works.

## Main definitions

* `World`, `World.run`, `World.token`, `World.onInterrupts`.
-/

namespace QueryResults

/-- The interrupts, and the state of the services. -/
structure World (σ : Type) where
  interrupts : Interrupts := {}
  outside : σ

namespace World

variable {σ : Type}

/-- Whether a token is cancelled. -/
def isCancelled (w : World σ) (t : Token) : Bool := w.interrupts.isCancelled t

/-- Changes the interrupts only. -/
def onInterrupts (f : Interrupts → Interrupts) (w : World σ) : World σ :=
  { w with interrupts := f w.interrupts }

/-- Changes the outside only. -/
def run {α : Type} (f : σ → α × σ) (w : World σ) : α × World σ :=
  ((f w.outside).1, { w with outside := (f w.outside).2 })

/-- Takes a token from the interrupts. -/
def token (f : Interrupts → Token × Interrupts) (w : World σ) : Token × World σ :=
  ((f w.interrupts).1, { w with interrupts := (f w.interrupts).2 })

end World

end QueryResults
