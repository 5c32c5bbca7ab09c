import QueryResults.Failure

/-!
# Faults of byte streams

Code that reads bytes through a general stream interface sees faults of a coarser classification. A
`Failure` that passes through such an interface travels inside a `StreamFault` and comes out
unchanged (`StreamFault.toFailure_carried`); a fault of the stream itself becomes an I/O failure
with the fault's text.

## Main definitions

* `StreamFault`: a carried failure, or a fault of the stream with its text.
* `StreamFault.category`: the coarse classification.
* `StreamFault.toFailure`: the failure reported to the caller.
-/

namespace QueryResults

/-- The classification that general stream code branches on. -/
inductive StreamFault.Category where
  | timedOut
  | interrupted
  | notFound
  | invalidData
  | invalidInput
  | other
  deriving DecidableEq, Repr

/-- A fault of a byte stream. -/
inductive StreamFault where
  /-- A failure of the library on its way through the stream. -/
  | carried (e : Failure)
  /-- A fault of the stream itself. -/
  | plain (text : String)
  deriving Repr

namespace StreamFault

/-- The category a kind of failure travels under; kinds without one of their own travel as
`other`. -/
def Category.ofKind : Failure.Kind → Category
  | .timeout => .timedOut
  | .interrupted => .interrupted
  | .notFound => .notFound
  | .data => .invalidData
  | .invalidArgument => .invalidInput
  | _ => .other

/-- The category of a fault. -/
def category : StreamFault → Category
  | carried e => Category.ofKind e.kind
  | plain _ => .other

/-- The display text of a fault. -/
def text : StreamFault → String
  | carried e => e.text
  | plain t => t

/-- The failure behind a fault: the carried one unchanged, or an I/O failure that goes back to the
stream. -/
def toFailure : StreamFault → Failure
  | carried e => e
  | plain t => { Failure.io t with cause := some (.outside t) }

@[simp] theorem toFailure_carried (e : Failure) : (carried e).toFailure = e := rfl

end StreamFault

end QueryResults
