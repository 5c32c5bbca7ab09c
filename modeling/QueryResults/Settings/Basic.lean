import QueryResults.Execution
import QueryResults.Pacing

/-!
# Settings

All that can be set about reading query results, with its defaults.

## Main definitions

* `Settings` and its parts `Settings.Reading`, `Settings.Download`, `Settings.Transport`,
  `Settings.Log`.
* `Backend`: the ways to read a result.
* `Agent`: the application named to the services.
-/

namespace QueryResults

/-- The largest number of rows a page may hold. -/
def maxPageSize : Nat := 1000

/-- How the result of a completed query is read. -/
inductive Backend where
  /-- Page by page, each page requested when it is needed. -/
  | paginated
  /-- Page by page, one page requested ahead. -/
  | prefetching
  /-- From the result file in the object store. -/
  | objectStore
  deriving DecidableEq, Repr

/-- The words that name a backend. -/
def Backend.words : Backend → List String
  | paginated => ["paginated", "pagination"]
  | prefetching => ["prefetch", "prefetching"]
  | objectStore => ["s3", "object_store"]

/-- A text with its ASCII letters in lower case. Texts are compared with words in this form; none of
the words holds the letter `k`, the only one that a character outside ASCII has as its whole lower
case. -/
def lowered (text : String) : String := text.map Char.toLower

/-- The backend that a text names, in letters of either case. -/
def Backend.ofWord? (text : String) : Option Backend :=
  [paginated, prefetching, objectStore].find? fun b => b.words.contains (lowered text)

/-- Name and version of an application. -/
structure Agent where
  name : String := "athena-results"
  version : String := "0.1.0"
  deriving DecidableEq, Repr

/-- How an application is named to the services. -/
def Agent.text (a : Agent) : String := a.name ++ "/" ++ a.version

namespace Settings

/-- Settings of the cursors. -/
structure Reading where
  backend : Backend := .paginated
  /-- Rows requested per page. -/
  pageSize : Nat := maxPageSize
  /-- The longest wait for one page. -/
  pageTimeout : Duration := .ofSeconds 10
  deriving DecidableEq, Repr

/-- Settings of downloads from the object store. -/
structure Download where
  /-- How often a download is resumed. -/
  maxRetries : UInt32 := 5
  /-- The wait before the first resumption; before resumption `n` it is `n` times as long. -/
  retryDelay : Duration := .ofMillis 100
  /-- How many chunks may lie between a transfer and its consumer. -/
  chunkBuffer : UInt64 := 16
  /-- More chunks are requested when fewer bytes than this are at hand. -/
  lowWatermark : UInt64 := 1048576
  /-- The longest wait for one chunk. -/
  readTimeout : Duration := .ofSeconds 60
  deriving DecidableEq, Repr

/-- Settings of the connections to the services. -/
structure Transport where
  connectTimeout : Duration := .ofSeconds 30
  readTimeout : Duration := .ofSeconds 60
  /-- How often a request is sent again after a failure that may pass. -/
  maxRetries : UInt32 := 5
  /-- The wait before a request is sent again, doubled with every repetition. -/
  retryDelay : Duration := .ofMillis 1500
  maxConnections : Nat := 100
  /-- Replaces the text of the application. -/
  userAgent : Option String := none
  deriving DecidableEq, Repr

/-- Settings of the log. -/
structure Log where
  level : Option String := none
  file : Option String := none
  deriving DecidableEq, Repr

end Settings

/-- All settings. -/
structure Settings where
  endpoint : Option String := none
  storeEndpoint : Option String := none
  query : Submission.Defaults := {}
  transport : Settings.Transport := {}
  polling : Pacing := .standard
  reading : Settings.Reading := {}
  download : Settings.Download := {}
  log : Settings.Log := {}
  agent : Agent := {}
  deriving DecidableEq, Repr

end QueryResults
