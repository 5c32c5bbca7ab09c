import QueryResults.Proofs.Store.Faltering

/-!
# Stores in good health

A store that serves an object is in good health if it answers every request for it and sends all
that was asked for, in chunks of any sizes. A property of the states of a store may be *kept* by all
requests, such as that nobody is interrupted meanwhile.

## Main definitions

* `Store.Whole`: a body that holds exactly some bytes.
* `Store.Gives`, `Store.Keeps`.

## Main results

* `Store.gives_faltering`: a store whose bodies never break off.
-/

namespace QueryResults.Store

variable {σ : Type}

/-- A body of chunks, of any sizes, that hold exactly the bytes `rest`. -/
inductive Whole : List UInt8 → List Item → Prop
  | done : Whole [] []
  | chunk {rest : List UInt8} {body : List Item} (b : List UInt8) (h : Whole rest body) :
      Whole (b ++ rest) (.chunk b :: body)

namespace Whole

theorem delivers {rest : List UInt8} {body : List Item} (h : Whole rest body) :
    Delivers rest body := by
  induction h with
  | done => exact .done []
  | chunk b _ ih => exact .chunk b ih

theorem ne_stall {rest : List UInt8} {body : List Item} (h : Whole rest body) :
    ∀ i ∈ body, i ≠ .stall := by
  induction h with
  | done => exact nofun
  | chunk b _ ih =>
    intro i hi
    rcases List.mem_cons.1 hi with rfl | hi
    · exact nofun
    · exact ih i hi

theorem eq_nil {rest : List UInt8} (h : Whole rest []) : rest = [] := by
  cases h
  rfl

theorem not_failure {rest : List UInt8} {e : Failure} {body : List Item} :
    ¬Whole rest (.failure e :: body) := by
  intro h
  cases h

/-- What is left of a whole body after its first chunk. -/
theorem drop_chunk {l b : List UInt8} {n : Nat} {body : List Item}
    (h : Whole (l.drop n) (.chunk b :: body)) : Whole (l.drop (n + b.length)) body := by
  have hb := h.delivers.drop_chunk.1
  generalize l.drop n = rest at h hb
  cases h with
  | chunk _ h =>
    rw [← List.append_cancel_left hb]
    exact h

end Whole

/-- A store that sends all of an object that it is asked for, under the tag of the object or under
none. -/
structure Gives (store : Store σ) (location : Location) (o : Object) : Prop where
  serves : store.Serves location o
  whole : ∀ (q : Request) (s : σ), q.location = location → q.offset ≤ o.bytes.length →
    (∀ tag, q.ifMatch = some tag → tag = o.etag) →
    ∃ r, (store.get q s).1 = .response r ∧ Whole (o.bytes.drop q.offset) r.body
  /-- A download that is waited for is not kept waiting. -/
  lapse : ∀ s, (store.lapse s).1 = .zero

/-- A property of the states of a store that neither a request nor a lapse of time changes. -/
structure Keeps (store : Store σ) (P : σ → Prop) : Prop where
  get : ∀ q s, P s → P (store.get q s).2
  lapse : ∀ s, P s → P (store.lapse s).2

theorem gives_faltering (objects : Location → Object) {cut : σ → Option Nat × σ}
    (hcut : ∀ s, (cut s).1 = none) (location : Location) :
    (faltering objects cut).Gives location (objects location) where
  serves := serves_faltering objects cut location
  whole := by
    rintro q s rfl - -
    refine ⟨_, rfl, ?_⟩
    rw [hcut s]
    have := Whole.chunk ((objects q.location).bytes.drop q.offset) .done
    rwa [List.append_nil] at this
  lapse _ := rfl

theorem keeps_faltering (objects : Location → Object) {cut : σ → Option Nat × σ} {P : σ → Prop}
    (hcut : ∀ s, P s → P (cut s).2) : (faltering objects cut).Keeps P where
  get _ := hcut
  lapse _ := id

end QueryResults.Store
