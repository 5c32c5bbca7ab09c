import Mathlib
import QueryResults.Store

/-!
# Stores that serve an object

An object that does not change has its bytes and its tag. A store *serves* it at a location when all
it ever answers to a request there is a failure, no answer at all, or a response that tells the
truth: the object's tag, the number of bytes from the offset asked for to the end, and a body whose
chunks are the first of these bytes, however they are cut and however early the body ends, fails or
stalls. A store is *prompt* when it never leaves a request or a body hanging.

The bytes that a truthful body still holds shrink with every chunk taken from it, and the offset
grows as much (`Delivers.drop_chunk`).

## Main definitions

* `Store.Object`, `Store.Request.offset`.
* `Store.Delivers`, `Store.Serves`, `Store.IsPrompt`.
* `Store.Exchange`, `Store.logged`: a store that keeps all requests with their answers.
* `Store.Exchange.Overruns`: an exchange with an offset too large for a word.
-/

namespace QueryResults.Store

/-- An object that does not change. Its size is a 64-bit word, as all offsets into it are. -/
structure Object where
  bytes : List UInt8
  etag : String
  size_lt : bytes.length < UInt64.size

/-- The offset of the first byte asked for. -/
def Request.offset (q : Request) : Nat := (q.start.map UInt64.toNat).getD 0

/-! ### Bodies -/

/-- A body whose chunks, of any sizes, are the first of the bytes `rest`, and which then ends, fails
or stalls. -/
inductive Delivers : List UInt8 → List Item → Prop
  | done (rest : List UInt8) : Delivers rest []
  | failure (rest : List UInt8) (e : Failure) : Delivers rest [.failure e]
  | stall (rest : List UInt8) : Delivers rest [.stall]
  | chunk {rest : List UInt8} {body : List Item} (b : List UInt8) (h : Delivers rest body) :
      Delivers (b ++ rest) (.chunk b :: body)

namespace Delivers

/-- Nothing follows a failure in a body. -/
theorem eq_nil_of_failure {rest : List UInt8} {e : Failure} {body : List Item}
    (h : Delivers rest (.failure e :: body)) : body = [] := by
  cases h
  rfl

/-- What is delivered after a chunk. -/
theorem of_chunk {rest b : List UInt8} {body : List Item} (h : Delivers rest (.chunk b :: body)) :
    ∃ rest', rest = b ++ rest' ∧ Delivers rest' body := by
  cases h with
  | chunk _ h => exact ⟨_, rfl, h⟩

/-- Taking a chunk from a body that starts at an offset: the chunk stands at the offset, and the
rest of the body starts behind it. -/
theorem drop_chunk {l b : List UInt8} {n : Nat} {body : List Item}
    (h : Delivers (l.drop n) (.chunk b :: body)) :
    l.drop n = b ++ l.drop (n + b.length) ∧ Delivers (l.drop (n + b.length)) body := by
  obtain ⟨rest, hr, h⟩ := h.of_chunk
  have hd : l.drop (n + b.length) = rest := by
    rw [← List.drop_drop, hr, List.drop_left]
  rw [hd]
  exact ⟨hr, h⟩

/-- A chunk ends within the bytes it is taken from. -/
theorem le_of_drop_chunk {l b : List UInt8} {n : Nat} {body : List Item} (hn : n ≤ l.length)
    (h : Delivers (l.drop n) (.chunk b :: body)) : n + b.length ≤ l.length := by
  have := congrArg List.length h.drop_chunk.1
  simp only [List.length_append, List.length_drop] at this
  omega

end Delivers

/-! ### Answers -/

/-- An answer that tells the truth about an object from an offset on, if it says anything. -/
def Answer.IsFaithful (o : Object) (offset : Nat) : Answer → Prop
  | .response r =>
    r.etag = some o.etag ∧ r.length = some (.ofNat (o.bytes.length - offset)) ∧
      Delivers (o.bytes.drop offset) r.body
  | .failure _ | .silence => True

/-- An answer that comes, and whose body never stalls. -/
def Answer.IsPrompt : Answer → Prop
  | .response r => ∀ i ∈ r.body, i ≠ .stall
  | .failure _ => True
  | .silence => False

variable {σ : Type}

/-- A store that tells the truth about the object at a location. -/
def Serves (store : Store σ) (location : Location) (o : Object) : Prop :=
  ∀ (q : Request) (s : σ), q.location = location → q.offset ≤ o.bytes.length →
    (store.get q s).1.IsFaithful o q.offset

/-- A store that leaves nothing hanging. -/
def IsPrompt (store : Store σ) : Prop := ∀ (q : Request) (s : σ), (store.get q s).1.IsPrompt

/-! ### Logs -/

/-- A request and what became of it. -/
structure Exchange where
  request : Request
  answer : Answer
  deriving Repr

/-- The same store with a log of all that it was asked and has answered, oldest first. -/
def logged (store : Store σ) : Store (σ × List Exchange) where
  get q s := ((store.get q s.1).1, (store.get q s.1).2, s.2 ++ [⟨q, (store.get q s.1).1⟩])
  lapse s := ((store.lapse s.1).1, (store.lapse s.1).2, s.2)

/-- An exchange with an offset too large for a word: the end that the response declares, or the one
behind its body. -/
def Exchange.Overruns (x : Exchange) : Prop :=
  ∃ r, x.answer = .response r ∧
    ((∃ n, r.length = some n ∧ UInt64.size ≤ x.request.offset + n.toNat) ∨
      UInt64.size ≤ x.request.offset + r.bytes.length)

/-- An exchange by which no task is held up or broken down. -/
structure Exchange.IsSmooth (x : Exchange) : Prop where
  prompt : x.answer.IsPrompt
  fits : ¬x.Overruns

theorem Serves.logged {store : Store σ} {location : Location} {o : Object}
    (h : store.Serves location o) : store.logged.Serves location o :=
  fun q s => h q s.1

theorem IsPrompt.logged {store : Store σ} (h : store.IsPrompt) : store.logged.IsPrompt :=
  fun q s => h q s.1

end QueryResults.Store
