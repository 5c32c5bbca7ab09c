import QueryResults.Duration
import QueryResults.Failure
import QueryResults.Location

/-!
# Object stores

The only thing asked of an object store is an object or the rest of it from an offset on, under the
condition that the object still carries a given entity tag. A store answers with the object's tag,
the length of what it sends, and a body that arrives item by item: chunks of bytes, a failure, or a
stall after which nothing comes any more. A body without a failure or a stall ends after its last
item.

Whoever waits for a download while he has other things to look at finds that time has passed, and
that the world has changed, each time he looks at it again. By default neither is the case.

A store that reports a violated condition does so with a failure of kind `preconditionFailed`, and a
missing object with one of kind `notFound`.

## Main definitions

* `Store.Request`, `Store.Item`, `Store.Response`, `Store.Answer`, `Store`.
* `Store.Item.bytes`, `Store.Response.bytes`: the bytes that a body holds.
-/

namespace QueryResults

/-- A request for an object. -/
structure Store.Request where
  location : Location
  /-- The offset of the first byte wanted; the whole object if there is none. -/
  start : Option UInt64 := none
  /-- The tag the object must still carry. -/
  ifMatch : Option String := none
  deriving DecidableEq, Repr

/-- One item of a body. -/
inductive Store.Item where
  | chunk (bytes : List UInt8)
  | failure (e : Failure)
  /-- Nothing comes any more, not even the end. -/
  | stall
  deriving Repr

/-- The bytes of an item. -/
def Store.Item.bytes : Store.Item → List UInt8
  | chunk b => b
  | _ => []

/-- An accepted request. -/
structure Store.Response where
  etag : Option String
  /-- The declared length of the body. -/
  length : Option UInt64
  body : List Store.Item
  deriving Repr

/-- The bytes of a body. -/
def Store.Response.bytes (r : Store.Response) : List UInt8 := r.body.flatMap Store.Item.bytes

/-- What becomes of a request. -/
inductive Store.Answer where
  | response (r : Store.Response)
  | failure (e : Failure)
  /-- No answer ever comes. -/
  | silence
  deriving Repr

/-- An object store with states in `σ`. -/
structure Store (σ : Type) where
  get : Store.Request → σ → Store.Answer × σ
  /-- How long it takes until a download that is waited for is looked at again, and what happens
  meanwhile. -/
  lapse : σ → Duration × σ := fun s => (.zero, s)

end QueryResults
