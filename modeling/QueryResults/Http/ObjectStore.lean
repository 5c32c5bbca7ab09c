import QueryResults.Http.Exchange
import QueryResults.Store

/-!
# Object stores over HTTP

An object is found at the endpoint, under its bucket and its key. A request for the rest of an
object carries a range, and a condition carries the tag; any successful answer is taken for the
bytes asked for.

## Main definitions

* `Http.objectUrl`, `Http.objectRequest`.
* `Http.objectStore`: the object store at an endpoint.
-/

namespace QueryResults.Http

/-- The text of the URL under which an object is found. -/
def objectUrl (endpoint : String) (l : Location) : String :=
  trimEndSlashes endpoint ++ "/" ++ l.bucket ++ "/" ++ trimStartSlashes l.key

/-- The draft of the request for an object. -/
def objectRequest (endpoint : String) (r : Store.Request) : Request where
  method := .get
  url := objectUrl endpoint r.location
  headers :=
    (r.start.map fun n => ("range", s!"bytes={n}-")).toList ++
      (r.ifMatch.map fun tag => ("if-match", tag)).toList

/-- The text of a header's value, if it consists of visible ASCII characters, blanks and tabs. -/
def headerText (value : List UInt8) : Option String :=
  if value.all fun b => b = 9 || (32 ≤ b && b < 127) then
    some (.ofList (value.map fun b => Char.ofNat b.toNat))
  else none

/-- The parts of a body as a store hands them out. -/
def itemOfPart (l : Location) : Part → Store.Item
  | .bytes b => .chunk b
  | .broken f =>
    let reason := f.text
    .failure
      { Failure.io s!"Failed to read body of {l}: {reason}" with
        cause := some (.outside f.text) }

/-- What a store answers with a response. -/
def storeResponse (l : Location) (r : Response) : Store.Response :=
  { etag := (r.headers.lookup "etag").bind headerText
    length := r.length
    body := r.body.map (itemOfPart l) }

/-- The object store at an endpoint. -/
def objectStore {σ : Type} (settings : Settings.Transport) (transport : Transport σ)
    (endpoint : String) : Store σ where
  get r s :=
    match transport.build (objectRequest endpoint r) with
    | .error reason => (.failure (.io ("Failed to build object request: " ++ reason)), s)
    | .ok request =>
      match execute settings transport request s with
      | (.error e, s) => (.failure e, s)
      | (.ok response, s) => (.response (storeResponse r.location response), s)

end QueryResults.Http
