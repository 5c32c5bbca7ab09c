import QueryResults.Json.Decoder
import QueryResults.Service.Basic

/-!
# Messages of the query service

The service is called with JSON objects and answers with JSON objects. Requests are written with
their fields in a fixed order and without blanks; what a request leaves open is left out. Answers
are read by name, and what they hold beyond the fields known here does not count.

## Main definitions

* `Message.StartRequest.write`, `Message.writePageRequest`, `Message.HandleRequest.write`: requests.
* `Message.StartAnswer`, `Message.ExecutionAnswer`, `Message.ResultsAnswer`, `Message.ErrorAnswer`:
  answers, with `ofJson?`.
* `Message.ColumnInfo.toColumn`: a column as the cursors report it.
-/

namespace QueryResults.Message

open Json

/-! ### Requests -/

/-- A written member, or none. -/
def member (key : String) (value : Option String) : List (String × String) :=
  (value.map fun v => (key, v)).toList

/-- An object whose only member is left out if it has no value. -/
def single (key : String) (value : Option String) : String :=
  writeObject (member key (value.map quote))

/-- The request that starts a query. The outer option of `database` and `output` says whether the
object around them is sent at all. -/
structure StartRequest where
  query : String
  token : String
  database : Option (Option String) := none
  output : Option (Option String) := none
  workgroup : Option String := none
  deriving DecidableEq, Repr

/-- The written request. -/
def StartRequest.write (r : StartRequest) : String :=
  writeObject <|
    [("QueryString", quote r.query), ("ClientRequestToken", quote r.token)] ++
      member "QueryExecutionContext" (r.database.map (single "Database")) ++
      member "ResultConfiguration" (r.output.map (single "OutputLocation")) ++
      member "WorkGroup" (r.workgroup.map quote)

/-- The request for the submission of a query under a token. -/
def StartRequest.ofSubmission (s : Submission) (token : String) : StartRequest :=
  { query := s.query
    token
    database := s.database.map some
    output := s.output.map some
    workgroup := s.workgroup }

/-- The written request for a page. -/
def writePageRequest (r : Service.PageRequest) : String :=
  writeObject <|
    [("QueryExecutionId", quote r.handle)] ++ member "NextToken" (r.token.map quote) ++
      [("MaxResults", toString r.maxRows)]

/-- A request about one execution, for its status or to stop it. -/
structure HandleRequest where
  handle : Handle
  deriving DecidableEq, Repr

/-- The written request. -/
def HandleRequest.write (r : HandleRequest) : String :=
  writeObject [("QueryExecutionId", quote r.handle)]

/-! ### Answers -/

/-- The answer to the start of a query. -/
structure StartAnswer where
  handle : Handle
  deriving DecidableEq, Repr

/-- Reads the answer to the start of a query. -/
def StartAnswer.ofJson? (v : Value) : Option StartAnswer :=
  match v.fields [["QueryExecutionId"]] with
  | some [handle] => do some { handle := ← required Value.text handle }
  | _ => none

/-- The state with a name. -/
def stateOfName? : String → Option Execution.State
  | "QUEUED" => some .queued
  | "RUNNING" => some .running
  | "SUCCEEDED" => some .succeeded
  | "FAILED" => some .failed
  | "CANCELLED" => some .cancelled
  | _ => none

/-- Reads a state. -/
def stateOfJson? (v : Value) : Option Execution.State := v.name.bind stateOfName?

/-- The answer about one execution. -/
structure ExecutionAnswer where
  handle : Handle
  state : Execution.State
  reason : Option String
  /-- The object about the output, if there is one, and the location in it. -/
  output : Option (Option String)
  deriving DecidableEq, Repr

/-- Reads state and reason of an execution. -/
def statusOfJson? (v : Value) : Option (Execution.State × Option String) :=
  match v.fields [["State"], ["StateChangeReason"]] with
  | some [state, reason] => do
    some (← required stateOfJson? state, ← optional Value.text reason)
  | _ => none

/-- Reads the object about the output. -/
def outputOfJson? (v : Value) : Option (Option String) :=
  match v.fields [["OutputLocation"]] with
  | some [location] => optional Value.text location
  | _ => none

/-- Reads the object about one execution. -/
def executionOfJson? (v : Value) : Option ExecutionAnswer :=
  match v.fields [["QueryExecutionId"], ["Status"], ["ResultConfiguration"]] with
  | some [handle, status, output] => do
    let handle ← required Value.text handle
    let (state, reason) ← required statusOfJson? status
    let output ← optional outputOfJson? output
    some { handle, state, reason, output }
  | _ => none

/-- Reads the answer about one execution. -/
def ExecutionAnswer.ofJson? (v : Value) : Option ExecutionAnswer :=
  match v.fields [["QueryExecution"]] with
  | some [execution] => required executionOfJson? execution
  | _ => none

/-- The status that an answer about the execution `handle` reports. -/
def ExecutionAnswer.toStatus (handle : Handle) (a : ExecutionAnswer) : Execution.Status :=
  { handle, state := a.state, reason := a.reason, output := a.output.join }

/-- A column as the service describes it. -/
structure ColumnInfo where
  catalog : Option String := none
  name : String
  label : Option String := none
  type : String
  precision : Int := 0
  scale : Int := 0
  nullable : Option String := none
  caseSensitive : Bool := false
  deriving DecidableEq, Repr

/-- Reads a column. -/
def ColumnInfo.ofJson? (v : Value) : Option ColumnInfo :=
  match v.fields [["CatalogName"], ["Name"], ["Label"], ["Type"], ["Precision"], ["Scale"],
      ["Nullable"], ["CaseSensitive"]] with
  | some [catalog, name, label, type, precision, scale, nullable, caseSensitive] => do
    some
      { catalog := ← optional Value.text catalog
        name := ← required Value.text name
        label := ← optional Value.text label
        type := ← required Value.text type
        precision := ← orDefault 0 Value.int32 precision
        scale := ← orDefault 0 Value.int32 scale
        nullable := ← optional Value.text nullable
        caseSensitive := ← orDefault false Value.flag caseSensitive }
  | _ => none

/-- The column as the cursors report it: labelled with its name where it has no label, and of
unknown nullability where the word for it is neither of the two known ones. -/
def ColumnInfo.toColumn (c : ColumnInfo) : Column :=
  { catalog := c.catalog
    name := c.name
    label := c.label.getD c.name
    type := c.type
    precision := c.precision
    scale := c.scale
    nullability :=
      if c.nullable = some "NOT_NULL" then .notNull
      else if c.nullable = some "NULLABLE" then .nullable
      else .unknown
    caseSensitive := c.caseSensitive }

/-- The answer with a page of results. -/
structure ResultsAnswer where
  rows : List Row
  columns : Option (List ColumnInfo)
  next : Option String
  deriving DecidableEq, Repr

/-- The page that an answer holds. -/
def ResultsAnswer.toPage (a : ResultsAnswer) : Service.Page :=
  { columns := (a.columns.getD []).map ColumnInfo.toColumn, rows := a.rows, next := a.next }

/-- Reads one value of a row. -/
def datumOfJson? (v : Value) : Option (Option String) :=
  match v.fields [["VarCharValue"]] with
  | some [value] => optional Value.text value
  | _ => none

/-- Reads a row. -/
def rowOfJson? (v : Value) : Option Row :=
  match v.fields [["Data"]] with
  | some [data] => orDefault [] (Value.list datumOfJson?) data
  | _ => none

/-- Reads the columns. -/
def columnsOfJson? (v : Value) : Option (List ColumnInfo) :=
  match v.fields [["ColumnInfo"]] with
  | some [columns] => orDefault [] (Value.list ColumnInfo.ofJson?) columns
  | _ => none

/-- Reads rows and columns. -/
def resultSetOfJson? (v : Value) : Option (List Row × Option (List ColumnInfo)) :=
  match v.fields [["Rows"], ["ResultSetMetadata"]] with
  | some [rows, columns] => do
    some (← orDefault [] (Value.list rowOfJson?) rows, ← optional columnsOfJson? columns)
  | _ => none

/-- Reads the answer with a page of results. -/
def ResultsAnswer.ofJson? (v : Value) : Option ResultsAnswer :=
  match v.fields [["ResultSet"], ["NextToken"]] with
  | some [resultSet, next] => do
    let (rows, columns) ← required resultSetOfJson? resultSet
    let next ← optional Value.text next
    some { rows, columns, next }
  | _ => none

/-- The answer to a refused request. -/
structure ErrorAnswer where
  type : Option String
  message : Option String
  deriving DecidableEq, Repr

/-- Reads the answer to a refused request. -/
def ErrorAnswer.ofJson? (v : Value) : Option ErrorAnswer :=
  match v.fields [["__type"], ["message", "Message"]] with
  | some [type, message] => do
    some { type := ← optional Value.text type, message := ← optional Value.text message }
  | _ => none

end QueryResults.Message
