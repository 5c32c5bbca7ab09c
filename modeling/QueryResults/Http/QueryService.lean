import QueryResults.Http.Exchange
import QueryResults.Json.Parser
import QueryResults.Service.Message

/-!
# The query service over HTTP

Every operation of the query service is a JSON message posted to its endpoint, with the name of the
operation in a header, and is answered by a JSON message. A refused operation is answered by a
message that names the error; its own words then replace those of the status.

## Main definitions

* `Http.QueryService`: where the service is, and how it is reached.
* `QueryService.submit`, `QueryService.status`, `QueryService.page`, `QueryService.stop`.
* `QueryService.describe`: the failure that a refusal stands for.
* `QueryService.service`: the service with its pages kept until they are waited for.
-/

namespace QueryResults.Http

/-- The query service at an endpoint. -/
structure QueryService (σ : Type) where
  settings : Settings.Transport
  transport : Transport σ
  endpoint : String
  /-- A token that was never used. -/
  newToken : σ → String × σ

namespace QueryService

/-- The type of the messages. -/
def contentType : String := "application/x-amz-json-1.1"

/-- What the name of an operation is written behind. -/
def targetScope : String := "AmazonAthena"

/-- The text before and after the first occurrence of `mark`. -/
def splitAtMark (mark : List Char) : List Char → Option (List Char × List Char)
  | [] => if mark.isEmpty then some ([], []) else none
  | c :: text =>
    if mark.isPrefixOf (c :: text) then some ([], (c :: text).drop mark.length)
    else (splitAtMark mark text).map fun (front, back) => (c :: front, back)

/-- The text after the last `#`. -/
def afterHash (text : String) : String :=
  .ofList (text.toList.reverse.takeWhile (· ≠ '#')).reverse

/-- The failure of an operation, in the words of the service if it has any. The type of the error
may be qualified by a text that ends in `#`. -/
def describe (operation : String) (e : Failure) : Failure :=
  match splitAtMark " - ".toList e.message.toList with
  | none => e
  | some (_, body) =>
    match (Json.parse (.ofList body)).bind Message.ErrorAnswer.ofJson? with
    | none => e
    | some answer =>
      let type := (answer.type.map afterHash).getD "ServiceError"
      let words := answer.message.getD ""
      { kind := if type = "ResourceNotFoundException" then .notFound else e.kind
        message := operation ++ " failed: " ++ type ++ ": " ++ words
        cause := some (.failure e) }

variable {σ : Type} (q : QueryService σ)

/-- The draft of the request for an operation. -/
def request (operation body : String) : Request where
  method := .post
  url := trimEndSlashes q.endpoint
  headers := [("x-amz-target", targetScope ++ "." ++ operation), ("content-type", contentType)]
  body := some body

/-- Calls an operation and reads the text of its answer. -/
def callText (operation body : String) (s : σ) : Except Failure String × σ :=
  match q.transport.build (q.request operation body) with
  | .error reason => (.error (.io ("Failed to build request: " ++ reason)), s)
  | .ok request =>
    match execute q.settings q.transport request s with
    | (.error e, s) => (.error (describe operation e), s)
    | (.ok response, s) =>
      (response.text.mapError fun f =>
        .io ("Failed to read " ++ operation ++ " response: " ++ f.text), s)

/-- Calls an operation and reads its answer. -/
def call {α : Type} (operation body : String) (read : Json.Value → Option α) (s : σ) :
    Except Failure α × σ :=
  match q.callText operation body s with
  | (.error e, s) => (.error e, s)
  | (.ok text, s) =>
    match (Json.parse text).bind read with
    | some a => (.ok a, s)
    | none =>
      (.error (.io ("Failed to parse " ++ operation ++ " response: not understood - body: " ++
        text)), s)

/-- Starts a query, under a new token if it has none. -/
def submit (x : Submission) (s : σ) : Except Failure Handle × σ :=
  let (token, s) :=
    match x.token with
    | some token => (token, s)
    | none => q.newToken s
  let (answer, s) :=
    q.call "StartQueryExecution" (Message.StartRequest.ofSubmission x token).write
      Message.StartAnswer.ofJson? s
  (answer.map Message.StartAnswer.handle, s)

/-- The status of a query. -/
def status (handle : Handle) (s : σ) : Except Failure Execution.Status × σ :=
  let (answer, s) :=
    q.call "GetQueryExecution" (Message.HandleRequest.write { handle })
      Message.ExecutionAnswer.ofJson? s
  (answer.map (Message.ExecutionAnswer.toStatus handle), s)

/-- A page of a result. -/
def page (r : Service.PageRequest) (s : σ) : Except Failure Service.Page × σ :=
  let (answer, s) :=
    q.call "GetQueryResults" (Message.writePageRequest r) Message.ResultsAnswer.ofJson? s
  (answer.map Message.ResultsAnswer.toPage, s)

/-- Stops a query. -/
def stop (handle : Handle) (s : σ) : Except Failure Unit × σ :=
  let (answer, s) := q.callText "StopQueryExecution" (Message.HandleRequest.write { handle }) s
  (answer.map fun _ => (), s)

/-- A state and the pages that have come, by their tickets. -/
structure Mailbox (σ : Type) where
  state : σ
  pages : List (Except Failure Service.Page) := []

/-- Works on the state alone. -/
def Mailbox.run {α : Type} (f : σ → α × σ) (m : Mailbox σ) : α × Mailbox σ :=
  ((f m.state).1, { m with state := (f m.state).2 })

/-- The service. A page comes when it is requested, and is kept until it is waited for. -/
def service : Service (Mailbox σ) where
  submit x := Mailbox.run (q.submit x)
  status handle := Mailbox.run (q.status handle)
  stop handle := Mailbox.run (q.stop handle)
  request r m :=
    let (page, state) := q.page r m.state
    (m.pages.length, { state, pages := m.pages ++ [page] })
  receive ticket m := (m.pages[ticket]?, m)
  abandon _ m := m

end QueryService

end QueryResults.Http
