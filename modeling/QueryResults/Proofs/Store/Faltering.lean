import QueryResults.Proofs.Store.Object

/-!
# A store whose bodies break off

The least that a faithful store can do: every request for an object that it has is answered, and the
body either holds all that was asked for or breaks off after some bytes. Where it breaks off is
decided by the state of the store.

## Main definitions

* `Store.faltering`.

## Main results

* `Store.serves_faltering`, `Store.isPrompt_faltering`.
-/

namespace QueryResults.Store

variable {σ : Type}

/-- The store of the objects that `objects` gives, in which `cut` decides how the next body ends:
after some bytes with a failure, or whole. -/
def faltering (objects : Location → Object) (cut : σ → Option Nat × σ) : Store σ where
  get q s :=
    let o := objects q.location
    let rest := o.bytes.drop q.offset
    let body :=
      match (cut s).1 with
      | some n => [.chunk (rest.take n), .failure (.io "Connection reset")]
      | none => [.chunk rest]
    (.response { etag := o.etag, length := some (.ofNat rest.length), body }, (cut s).2)

theorem serves_faltering (objects : Location → Object) (cut : σ → Option Nat × σ)
    (location : Location) : (faltering objects cut).Serves location (objects location) := by
  rintro q s rfl -
  refine ⟨rfl, by rw [← List.length_drop], ?_⟩
  cases h : (cut s).1 with
  | some n =>
    have := Delivers.chunk (((objects q.location).bytes.drop q.offset).take n)
      (.failure (((objects q.location).bytes.drop q.offset).drop n) (.io "Connection reset"))
    rwa [List.take_append_drop] at this
  | none =>
    have := Delivers.chunk ((objects q.location).bytes.drop q.offset) (.done [])
    rwa [List.append_nil] at this

theorem isPrompt_faltering (objects : Location → Object) (cut : σ → Option Nat × σ) :
    (faltering objects cut).IsPrompt := by
  intro q s i hi
  simp only at hi
  cases h : (cut s).1 with
  | some n =>
    rw [h] at hi
    rcases List.mem_cons.1 hi with rfl | hi
    · exact nofun
    · cases List.mem_singleton.1 hi
      exact nofun
  | none =>
    rw [h] at hi
    cases List.mem_singleton.1 hi
    exact nofun

end QueryResults.Store
