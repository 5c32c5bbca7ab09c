/-!
# Failures

Every operation of the library that can go wrong answers with a `Failure`: its kind, a message, the
failure that caused it if there is one, and the earlier failures it supersedes. A download that
gives up after several attempts reports its last attempt and carries the others as *suppressed*
failures, oldest first.

## Main definitions

* `Failure.Kind`: the classification, with its display text `Failure.Kind.text`.
* `Failure`: kind, message, cause and suppressed failures.
* `Failure.withSuppressed`, `Failure.causedBy`, `Failure.repeated`: the ways a failure is built from
  others.
* `Failure.chain`: the failures from the outside in, along their causes.
-/

namespace QueryResults

/-- What went wrong, in the coarse classification callers branch on. -/
inductive Failure.Kind where
  /-- Transport failure: network, status of an answer, reading a body. -/
  | io
  /-- An operation exceeded its deadline. -/
  | timeout
  /-- The query ended in the failed state. -/
  | queryFailed
  /-- The query ended in the cancelled state. -/
  | queryCanceled
  /-- Malformed rows or malformed column metadata. -/
  | data
  /-- A value outside the accepted range was passed. -/
  | invalidArgument
  /-- The operation is not allowed in the current state. -/
  | invalidState
  /-- The object or the query does not exist. -/
  | notFound
  /-- The object changed between two requests of one download. -/
  | preconditionFailed
  /-- A blocking wait was interrupted by the caller. -/
  | interrupted
  deriving DecidableEq, Repr

/-- The words shown for a kind. -/
def Failure.Kind.text : Failure.Kind → String
  | .io => "I/O error"
  | .timeout => "Timeout"
  | .queryFailed => "Query failed"
  | .queryCanceled => "Query canceled"
  | .data => "Data error"
  | .invalidArgument => "Invalid argument"
  | .invalidState => "Invalid state"
  | .notFound => "Not found"
  | .preconditionFailed => "Precondition failed"
  | .interrupted => "Interrupted"

/-- What a failure goes back to: another failure, or a fault outside the library known only by its
text. -/
inductive Cause (ε : Type) where
  | failure (e : ε)
  | outside (text : String)
  deriving Repr

/-- A failure: its kind, its message without the words of the kind, its cause, and the earlier
failures it supersedes, oldest first. -/
structure Failure where
  kind : Failure.Kind
  message : String
  cause : Option (Cause Failure) := none
  suppressed : List Failure := []
  deriving Repr

instance : Inhabited Failure := ⟨{ kind := .io, message := "" }⟩

namespace Failure

/-- The kind's words, a colon, and the message. -/
def text (e : Failure) : String := e.kind.text ++ ": " ++ e.message

/-- Adds earlier failures behind those already suppressed. -/
def withSuppressed (e : Failure) (earlier : List Failure) : Failure :=
  { e with suppressed := e.suppressed ++ earlier }

/-- Sets the failure that `e` goes back to. -/
def causedBy (e : Failure) (inner : Failure) : Failure :=
  { e with cause := some (.failure inner) }

/-- Kind and message alone: how a terminal failure is reported again by later calls. -/
def repeated (e : Failure) : Failure := { kind := e.kind, message := e.message }

/-- A failure of the same kind that says more about where it happened and goes back to `e`. -/
def inContext (e : Failure) (message : String) : Failure :=
  { kind := e.kind, message, cause := some (.failure e) }

/-- The failures that `e` goes back to, from the outside in. The chain stops where a cause lies
outside the library. -/
def chain : Failure → List Failure
  | { cause := some (.failure inner), .. } => inner :: chain inner
  | _ => []

@[simp] theorem kind_withSuppressed (e : Failure) (l : List Failure) :
    (e.withSuppressed l).kind = e.kind := rfl

@[simp] theorem message_withSuppressed (e : Failure) (l : List Failure) :
    (e.withSuppressed l).message = e.message := rfl

@[simp] theorem suppressed_withSuppressed (e : Failure) (l : List Failure) :
    (e.withSuppressed l).suppressed = e.suppressed ++ l := rfl

@[simp] theorem withSuppressed_nil (e : Failure) : e.withSuppressed [] = e := by
  cases e
  simp [withSuppressed]

@[simp] theorem kind_repeated (e : Failure) : e.repeated.kind = e.kind := rfl

@[simp] theorem message_repeated (e : Failure) : e.repeated.message = e.message := rfl

@[simp] theorem repeated_repeated (e : Failure) : e.repeated.repeated = e.repeated := rfl

@[simp] theorem kind_inContext (e : Failure) (m : String) : (e.inContext m).kind = e.kind := rfl

@[simp] theorem message_inContext (e : Failure) (m : String) :
    (e.inContext m).message = m := rfl

/-! ### One constructor per kind -/

/-- A transport failure. -/
def io (message : String) : Failure := { kind := .io, message }

/-- A deadline that passed. -/
def timeout (message : String) : Failure := { kind := .timeout, message }

/-- A query that failed, with the reason the service gave. -/
def queryFailed (reason : String) : Failure := { kind := .queryFailed, message := reason }

/-- A query that was cancelled, with the reason the service gave. -/
def queryCanceled (reason : String) : Failure := { kind := .queryCanceled, message := reason }

/-- Malformed data. -/
def data (message : String) : Failure := { kind := .data, message }

/-- An argument outside the accepted range. -/
def invalidArgument (message : String) : Failure := { kind := .invalidArgument, message }

/-- An operation that the current state does not allow. -/
def invalidState (message : String) : Failure := { kind := .invalidState, message }

/-- Something that does not exist. -/
def notFound (message : String) : Failure := { kind := .notFound, message }

/-- An object that changed under a download. -/
def preconditionFailed (message : String) : Failure := { kind := .preconditionFailed, message }

/-- A wait that the caller interrupted. -/
def interrupted (message : String) : Failure := { kind := .interrupted, message }

end Failure

end QueryResults
