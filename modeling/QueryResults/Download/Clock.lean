import QueryResults.Download.Transfer

/-!
# Transfers in time

The store answers without delay; time passes only in the pauses of a transfer and while its consumer
waits. The consumer may wait for the next signal for a limited span: it gets the first signal that
is there before the span is over, and otherwise nothing, with the whole span gone by.

## Main definitions

* `Transfer.pass`: lets a span of time go by.
* `Transfer.await`: waits for the next signal.
-/

namespace QueryResults.Download.Transfer

variable {σ : Type} (store : Store σ)

/-- How long a transfer still pauses before it requests the rest of its object again. -/
def pauseLeft (t : Transfer) : Option Duration :=
  match t.phase with
  | .pausing left => some left
  | _ => none

/-- Ends a pause and goes on. -/
def wake (t : Transfer) (s : σ) : Transfer × σ := settle store { t with phase := .opening } s

theorem wake_smaller {t : Transfer} {left : Duration} (s : σ) (h : t.pauseLeft = some left) :
    Smaller (wake store t s).1 t := by
  have opening : Smaller { t with phase := .opening } t := by
    refine smaller_of_rank rfl ?_
    unfold pauseLeft at h
    split at h
    · rename_i hp
      simp [hp, Phase.rank]
    · cases h
  unfold wake
  rcases settle_eq_or_smaller store { t with phase := .opening } s with he | hs
  · rw [he]
    exact opening
  · exact hs.trans opening

/-- Lets a span of time go by for a transfer at rest. -/
def pass (span : Duration) (t : Transfer) (s : σ) : Transfer × σ :=
  match _h : t.pauseLeft with
  | none => (t, s)
  | some left =>
    if left.nanos ≤ span.nanos then
      let woken := wake store t s
      pass ⟨span.nanos - left.nanos⟩ woken.1 woken.2
    else ({ t with phase := .pausing ⟨left.nanos - span.nanos⟩ }, s)
termination_by smaller_wf.wrap t
decreasing_by exact wake_smaller store s _h

/-- What became of waiting for a signal, and how long it took. -/
structure Waited where
  receipt : Receipt
  span : Duration
  deriving Repr

/-- Waits for the next signal of a transfer at rest, for less than `limit` if there is one. -/
def await (limit : Option Duration) (t : Transfer) (s : σ) : Waited × Transfer × σ :=
  match t.next with
  | (.signal x, t) => (⟨.signal x, .zero⟩, settle store t s)
  | (.over, t) => (⟨.over, .zero⟩, t, s)
  | (.notYet, _) =>
    match _h : t.pauseLeft with
    | none => (⟨.notYet, limit.getD .zero⟩, t, s)
    | some left =>
      if limit.any (·.nanos ≤ left.nanos) then
        let span := limit.getD .zero
        (⟨.notYet, span⟩, pass store span t s)
      else
        let woken := wake store t s
        let rest := await (limit.map fun l => ⟨l.nanos - left.nanos⟩) woken.1 woken.2
        (⟨rest.1.receipt, ⟨left.nanos + rest.1.span.nanos⟩⟩, rest.2)
termination_by smaller_wf.wrap t
decreasing_by exact wake_smaller store s _h

end QueryResults.Download.Transfer
