import Mathlib
import QueryResults.Service.Basic
import QueryResults.World

/-!
# Services with a log

A query service can be given a log of all pages received from it, in the order in which they were.
The service itself neither sees the log nor behaves differently because of it.

## Main definitions

* `World.inner`: an action on a world that has a further part outside.
* `Service.logged`, `World.pages`: a service with a log, and the log.

## Main results

* `Service.pages_request`, `Service.pages_receive`: what goes into the log.
-/

namespace QueryResults

open Service (Page PageRequest Ticket)

variable {σ τ α : Type}

namespace World

/-- Acts on a world whose outside has a further part. -/
def inner (f : World σ → α × World σ) (w : World (σ × τ)) : α × World (σ × τ) :=
  let (a, v) := f { interrupts := w.interrupts, outside := w.outside.1 }
  (a, { interrupts := v.interrupts, outside := (v.outside, w.outside.2) })

/-- The pages in the log, oldest first. -/
def pages (w : World (σ × List Page)) : List Page := w.outside.2

/-- Adds to the log. -/
def log (w : World (σ × List Page)) (l : List Page) : World (σ × List Page) :=
  { w with outside := (w.outside.1, w.outside.2 ++ l) }

@[simp] theorem pages_inner (f : World σ → α × World σ) (w : World (σ × List Page)) :
    (inner f w).2.pages = w.pages := rfl

@[simp] theorem pages_token (f : Interrupts → Token × Interrupts) (w : World (σ × List Page)) :
    (w.token f).2.pages = w.pages := rfl

end World

namespace Service

/-- The page in an answer, if one came. -/
def pageOf : Option (Except Failure Page) → List Page
  | some (.ok page) => [page]
  | _ => []

/-- The same service with a log of the pages received from it. -/
def logged (service : Service (World σ)) : Service (World (σ × List Page)) where
  submit s := World.inner (service.submit s)
  status h := World.inner (service.status h)
  stop h := World.inner (service.stop h)
  request r := World.inner (service.request r)
  receive t w :=
    let (answer, w) := World.inner (service.receive t) w
    (answer, w.log (pageOf answer))
  abandon t w := (World.inner (fun v => ((), service.abandon t v)) w).2

variable (service : Service (World σ)) (w : World (σ × List Page))

@[simp] theorem pages_request (r : PageRequest) :
    (service.logged.request r w).2.pages = w.pages := rfl

@[simp] theorem pages_receive (t : Ticket) :
    (service.logged.receive t w).2.pages =
      w.pages ++ pageOf (service.logged.receive t w).1 := rfl

end Service

end QueryResults
