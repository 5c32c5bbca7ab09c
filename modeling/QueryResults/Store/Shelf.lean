import QueryResults.Feed
import QueryResults.Store
import QueryResults.World

/-!
# A shelf of objects

An object store that keeps its objects in memory and goes wrong where it is told to. Every request
is logged; the request numbered `n`, counted over all objects, is answered under the fault planned
for it, if there is one.

## Main definitions

* `Shelf`, `Shelf.Object`, `Shelf.Fault`.
* `Shelf.get`: the answer to a request.
-/

namespace QueryResults

/-- A stored object. -/
structure Shelf.Object where
  bytes : List UInt8
  etag : Option String
  deriving Repr

/-- How a body ends before its last byte, after the given number of bytes. -/
inductive Shelf.Cut where
  | fail (size : Nat) (e : Failure)
  | stall (size : Nat)
  | stop (size : Nat)
  deriving Repr

/-- What is special about the answer to one request. -/
structure Shelf.Fault where
  /-- Whether the request interrupts whoever made it. -/
  interrupts : Bool := false
  /-- Whether no answer comes. -/
  silent : Bool := false
  /-- The failure of the request. -/
  refusal : Option Failure := none
  /-- The tag to send in place of the object's. -/
  etag : Option (Option String) := none
  /-- Whether a violated condition is ignored. -/
  lenient : Bool := false
  /-- The length to declare in place of the real one. -/
  length : Option (Option UInt64) := none
  /-- The body to send in place of the object's bytes. -/
  body : Option (List Store.Item) := none
  cut : Option Shelf.Cut := none
  /-- The size of the chunks of the body. -/
  chunk : Option Nat := none
  deriving Repr

/-- The objects by their written locations, the size of the chunks they are sent in, the faults
still to come, and the requests so far, the latest first. -/
structure Shelf where
  objects : List (String × Shelf.Object) := []
  chunk : Nat := 16
  faults : List Shelf.Fault := []
  requests : List Store.Request := []
  deriving Repr

namespace Shelf

/-- A body that is sent in chunks and may be cut. -/
def items (chunk : Nat) (cut : Option Cut) (bytes : List UInt8) : List Store.Item :=
  let whole (b : List UInt8) : List Store.Item := (Feed.cut chunk b).map .chunk
  match cut with
  | none => whole bytes
  | some (.fail size e) => whole (bytes.take size) ++ [.failure e]
  | some (.stall size) => whole (bytes.take size) ++ [.stall]
  | some (.stop size) => whole (bytes.take size)

/-- The object asked for. A request whose body is planned finds an empty object without a tag where
there is none. -/
def find? (s : Shelf) (f : Fault) (location : Location) : Option Object :=
  match s.objects.lookup location.text with
  | some o => some o
  | none => f.body.map fun _ => { bytes := [], etag := none }

/-- The answer to a request under a fault. -/
def answer (s : Shelf) (f : Fault) (r : Store.Request) : Store.Answer :=
  if f.silent then .silence
  else
    match f.refusal, s.find? f r.location with
    | some e, _ => .failure e
    | none, none =>
      let location := r.location
      .failure (.notFound s!"No such key: {location}")
    | none, some o =>
      let etag := f.etag.getD o.etag
      let accepted :=
        let bytes := o.bytes.drop ((r.start.map UInt64.toNat).getD 0)
        .response
          { etag
            length := f.length.getD (some (.ofNat bytes.length))
            body := f.body.getD (items (f.chunk.getD s.chunk) f.cut bytes) }
      match r.ifMatch with
      | none => accepted
      | some tag =>
        if etag = some tag ∨ f.lenient then accepted
        else .failure (.preconditionFailed s!"ETag does not match {tag}")

/-- The fault planned for the next request. -/
def nextFault (s : Shelf) : Fault := s.faults.head?.getD {}

/-- Logs and answers a request. -/
def get (r : Store.Request) (s : Shelf) : Store.Answer × Shelf :=
  (s.answer s.nextFault r, { s with faults := s.faults.tail, requests := r :: s.requests })

/-- Replaces an object. -/
def put (s : Shelf) (location : String) (o : Object) : Shelf :=
  { s with objects := (location, o) :: s.objects }

/-- The shelf as an object store. -/
def store : Store Shelf where get := get

/-- The shelf as an object store, kept in a part of the outside. `interrupt` is what a request that
interrupts somebody does. -/
def storeIn {σ : Type} (shelf : σ → Shelf) (replace : Shelf → σ → σ)
    (interrupt : Interrupts → Interrupts) : Store (World σ) where
  get r w :=
    let (answer, s) := get r (shelf w.outside)
    (answer,
      { interrupts :=
          if (shelf w.outside).nextFault.interrupts then interrupt w.interrupts
          else w.interrupts
        outside := replace s w.outside })

end Shelf

end QueryResults
