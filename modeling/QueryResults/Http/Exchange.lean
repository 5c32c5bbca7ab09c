import QueryResults.Pacing
import QueryResults.Settings.Basic
import QueryResults.Text.Utf8

/-!
# Exchanges over HTTP

A request is sent until it is answered: what may pass by itself is tried again, after waits that
double with every attempt, as long as retries are left. Every attempt sends the request as it was
made, signed anew.

The transport below builds requests, signs, sends and lets time pass. What the text of a URL or the
value of a header may be is its affair: it builds a request of a draft, or says why there can be
none. It hands out one answer per attempt: a response with a status, headers and a body, or a fault
if there is no response.

## Main definitions

* `Http.Request`, `Http.Response`, `Http.Fault`, `Http.Outcome`, `Http.Transport`.
* `Http.execute`: sends a request until it is answered.
* `Http.statusFailure`: the failure that a status stands for.
-/

namespace QueryResults.Http

/-- What a request asks for. -/
inductive Method where
  | get
  | post
  deriving DecidableEq, Repr

/-- A request, or the draft of one. -/
structure Request where
  method : Method
  /-- The text of the URL. -/
  url : String
  /-- Names in lower case, with their values. -/
  headers : List (String × String) := []
  body : Option String := none
  /-- Whether the body can be sent more than once. -/
  replayable : Bool := true
  deriving DecidableEq, Repr

/-- Why a request or the rest of a response did not come through. -/
structure Fault where
  text : String
  timedOut : Bool := false
  /-- Whether no connection was made. -/
  unconnected : Bool := false
  /-- Whether the request could not be sent, or its response not be read. -/
  unsent : Bool := false
  deriving DecidableEq, Repr

/-- Whether the fault may pass by itself. -/
def Fault.isPassing (f : Fault) : Bool := f.timedOut || f.unconnected || f.unsent

/-- A part of a body. Nothing follows a fault. -/
inductive Part where
  | bytes (b : List UInt8)
  | broken (f : Fault)
  deriving DecidableEq, Repr

/-- A response. -/
structure Response where
  status : Nat
  /-- Names in lower case, with their values. -/
  headers : List (String × List UInt8) := []
  /-- The declared length of the body. -/
  length : Option UInt64 := none
  body : List Part := []
  deriving DecidableEq, Repr

/-- The bytes of a body, or the fault that broke it off. -/
def bodyBytes : List Part → Except Fault (List UInt8)
  | [] => .ok []
  | .bytes b :: rest => (bodyBytes rest).map (b ++ ·)
  | .broken f :: _ => .error f

/-- The text of a response. -/
def Response.text (r : Response) : Except Fault String :=
  (bodyBytes r.body).map fun bytes => .ofList (Utf8.decodeAny bytes)

/-- What becomes of one attempt. -/
inductive Outcome where
  | response (r : Response)
  | fault (f : Fault)
  deriving DecidableEq, Repr

/-- What requests are sent through. -/
structure Transport (σ : Type) where
  /-- Builds a request of a draft, or says why it cannot be built. -/
  build : Request → Except String Request
  /-- Signs a request. -/
  sign : Request → σ → Except Failure Request × σ
  /-- Sends a signed request. -/
  send : Request → σ → Outcome × σ
  /-- Lets time pass. -/
  pause : Duration → σ → σ

/-- The statuses of a request that was served. -/
def isSuccess (status : Nat) : Bool := 200 ≤ status && status < 300

/-- The statuses that may pass by themselves. -/
def isPassingStatus (status : Nat) : Bool := [429, 502, 503, 504].contains status

/-- The failure that a status stands for. -/
def statusFailure (status : Nat) (body : String) : Failure :=
  { kind :=
      if status = 404 then .notFound
      else if status = 412 then .preconditionFailed
      else if status = 408 then .timeout
      else .io
    message := s!"HTTP {status} - {body}" }

/-- The failure that a fault stands for, once the given number of attempts was made. -/
def faultFailure (attempts : Nat) (reason : String) (f : Fault) : Failure :=
  { kind := if f.timedOut then .timeout else .io
    message := s!"HTTP request failed after {attempts} attempts: {reason}"
    cause := some (.outside f.text) }

/-- The wait after the given number of attempts. -/
def retryWait (settings : Settings.Transport) (attempts : Nat) : Duration :=
  settings.retryDelay.scale (Pacing.multiplier 2 (attempts - 1))

variable {σ : Type} (settings : Settings.Transport) (transport : Transport σ)

/-- Sends a request once. The signature is made for this attempt alone. -/
def attempt (r : Request) (s : σ) : Except Failure Outcome × σ :=
  match transport.sign r s with
  | (.error e, s) => (.error e, s)
  | (.ok signed, s) =>
    let (outcome, s) := transport.send signed s
    (.ok outcome, s)

/-- Why an attempt is to be repeated, if what stopped it may pass by itself. -/
def retryReason? : Outcome → Option String
  | .response r =>
    if isPassingStatus r.status then
      let status := r.status
      some s!"HTTP {status}"
    else none
  | .fault f => if f.isPassing then some f.text else none

/-- What the attempt numbered `number` comes to if it is the last. `noted` is the reason for the
latest repetition; it stands in the message of a fault. -/
def conclude (number : Nat) (noted : Option String) : Outcome → Except Failure Response
  | .response r =>
    if isSuccess r.status then .ok r
    else .error (statusFailure r.status (r.text.toOption.getD ""))
  | .fault f => .error (faultFailure number (noted.getD f.text) f)

/-- Makes the attempts from the one numbered `number` on, with `left` retries left. -/
def executeFrom (r : Request) : (left number : Nat) → Option String → σ →
    Except Failure Response × σ
  | 0, number, noted, s =>
    match attempt transport r s with
    | (.error e, s) => (.error e, s)
    | (.ok outcome, s) => (conclude number noted outcome, s)
  | left + 1, number, noted, s =>
    match attempt transport r s with
    | (.error e, s) => (.error e, s)
    | (.ok outcome, s) =>
      match retryReason? outcome with
      | none => (conclude number noted outcome, s)
      | some reason =>
        executeFrom r left (number + 1) (some reason)
          (transport.pause (retryWait settings number) s)

/-- Sends a request until it is answered, or no retries are left. -/
def execute (r : Request) (s : σ) : Except Failure Response × σ :=
  if r.replayable then executeFrom settings transport r settings.maxRetries.toNat 1 none s
  else (.error (.invalidArgument "Request body cannot be replayed for retries"), s)

/-- The same transport, with the text of an application in every request. -/
def Transport.named (agent : String) (t : Transport σ) : Transport σ :=
  { t with send := fun r => t.send { r with headers := ("user-agent", agent) :: r.headers } }

/-! ### Texts of URLs -/

/-- The text without the slashes at its end. -/
def trimEndSlashes (text : String) : String :=
  .ofList (text.toList.reverse.dropWhile (· = '/')).reverse

/-- The text without the slashes at its beginning. -/
def trimStartSlashes (text : String) : String := .ofList (text.toList.dropWhile (· = '/'))

end QueryResults.Http
