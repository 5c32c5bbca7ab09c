import QueryResults.Settings.Basic
import QueryResults.Text.Numeral

/-!
# Settings as text properties

Settings can be given as properties, pairs of a key and a text. A property is first read, which
depends on nothing but its key and its text, and the change it stands for is then made to the
settings. Reading can fail; making the change cannot.

Numbers are read as 64-bit numbers; a setting with fewer bits keeps the low ones.

## Main definitions

* `Settings.Key`: the keys, with their names.
* `Settings.Change`: what a property stands for, and `Settings.Change.apply`.
* `Settings.setProperty`, `Settings.ofProperties`.
-/

namespace QueryResults.Settings

/-- The settings that have a key. -/
inductive Key where
  | endpoint
  | storeEndpoint
  | database
  | workgroup
  | output
  | backend
  | pageSize
  | pageTimeout
  | pollInterval
  | pollMaxInterval
  | pollGrowing
  | pollFactor
  | downloadRetries
  | downloadRetryDelay
  | chunkBuffer
  | lowWatermark
  | readTimeout
  | connectTimeout
  | transportReadTimeout
  | transportRetries
  | logLevel
  | logFile
  deriving DecidableEq, Repr

namespace Key

/-- What all keys start with. -/
def namespaceName : String := "athena."

/-- The name of a key. -/
def name : Key → String
  | endpoint => "athena.endpoint"
  | storeEndpoint => "athena.s3_endpoint"
  | database => "athena.database"
  | workgroup => "athena.workgroup"
  | output => "athena.output_location"
  | backend => "athena.result_backend"
  | pageSize => "athena.fetch_size"
  | pageTimeout => "athena.fetch_timeout_ms"
  | pollInterval => "athena.poll.interval_ms"
  | pollMaxInterval => "athena.poll.max_interval_ms"
  | pollGrowing => "athena.poll.backoff"
  | pollFactor => "athena.poll.backoff_factor"
  | downloadRetries => "athena.fetch.max_retries"
  | downloadRetryDelay => "athena.fetch.retry_delay_ms"
  | chunkBuffer => "athena.fetch.chunk_buffer"
  | lowWatermark => "athena.fetch.low_watermark_bytes"
  | readTimeout => "athena.fetch.read_timeout_ms"
  | connectTimeout => "athena.http.connect_timeout_ms"
  | transportReadTimeout => "athena.http.read_timeout_ms"
  | transportRetries => "athena.http.max_retries"
  | logLevel => "athena.log_level"
  | logFile => "athena.log_file"

/-- All keys. -/
def all : List Key :=
  [endpoint, storeEndpoint, database, workgroup, output, backend, pageSize, pageTimeout,
    pollInterval, pollMaxInterval, pollGrowing, pollFactor, downloadRetries, downloadRetryDelay,
    chunkBuffer, lowWatermark, readTimeout, connectTimeout, transportReadTimeout,
    transportRetries, logLevel, logFile]

/-- The key with a name. -/
def ofName? (name : String) : Option Key := all.find? (·.name = name)

theorem ofName?_name (k : Key) : ofName? k.name = some k := by cases k <;> decide

theorem name_of_ofName? {k : Key} {name : String} (h : ofName? name = some k) :
    k.name = name := by
  simpa using List.find?_some h

end Key

/-! ### What a property stands for -/

/-- A change to the settings. -/
inductive Change where
  | endpoint (text : String)
  | storeEndpoint (text : String)
  | database (text : String)
  | workgroup (text : String)
  | output (text : String)
  | backend (b : Backend)
  | pageSize (rows : Nat)
  | pageTimeout (span : Duration)
  /-- The wait before the first repetition of a check. -/
  | pollInterval (span : Duration)
  /-- The cap of growing waits; waits that do not grow have none. -/
  | pollMaxInterval (span : Duration)
  /-- Whether the waits grow. -/
  | pollGrowing (on : Bool)
  /-- The factor of growing waits; waits that do not grow have none. -/
  | pollFactor (factor : UInt32)
  | downloadRetries (n : UInt32)
  | downloadRetryDelay (span : Duration)
  | chunkBuffer (chunks : UInt64)
  | lowWatermark (bytes : UInt64)
  | readTimeout (span : Duration)
  | connectTimeout (span : Duration)
  | transportReadTimeout (span : Duration)
  | transportRetries (n : UInt32)
  | logLevel (text : String)
  | logFile (text : String)
  deriving DecidableEq, Repr

/-- Why a property is refused. -/
inductive PropertyError where
  | unknownKey
  | badValue
  /-- The number of rows per page is zero or too large. -/
  | pageSizeOutOfRange
  deriving DecidableEq, Repr

/-- The message for a refused property. -/
def PropertyError.message (name value : String) : PropertyError → String
  | unknownKey => s!"Unknown property: {name}"
  | badValue => s!"Invalid value for {name}: {value}"
  | pageSizeOutOfRange => s!"{name} must be between 1 and {maxPageSize}, got {value}"

/-- Reads a number. -/
def readNumber (value : String) : Except PropertyError UInt64 :=
  match Numeral.read value with
  | some n => .ok n
  | none => .error .badValue

/-- Reads a number of milliseconds. -/
def readMillis (value : String) : Except PropertyError Duration :=
  (readNumber value).map fun n => .ofMillis n.toNat

/-- Reads a word for yes or no, in letters of either case. -/
def readFlag (value : String) : Except PropertyError Bool :=
  let word := lowered value
  if word = "true" ∨ word = "1" ∨ word = "yes" then .ok true
  else if word = "false" ∨ word = "0" ∨ word = "no" then .ok false
  else .error .badValue

/-- Reads a backend. -/
def readBackend (value : String) : Except PropertyError Backend :=
  match Backend.ofWord? value with
  | some b => .ok b
  | none => .error .badValue

/-- Reads a number of rows per page. -/
def readPageSize (value : String) : Except PropertyError Nat := do
  let n ← readNumber value
  if n.toNat = 0 ∨ maxPageSize < n.toNat then .error .pageSizeOutOfRange else .ok n.toNat

/-- The change that a property with this key stands for. -/
def Key.read (value : String) : Key → Except PropertyError Change
  | endpoint => .ok (.endpoint value)
  | storeEndpoint => .ok (.storeEndpoint value)
  | database => .ok (.database value)
  | workgroup => .ok (.workgroup value)
  | output => .ok (.output value)
  | backend => (readBackend value).map .backend
  | pageSize => (readPageSize value).map .pageSize
  | pageTimeout => (readMillis value).map .pageTimeout
  | pollInterval => (readMillis value).map .pollInterval
  | pollMaxInterval => (readMillis value).map .pollMaxInterval
  | pollGrowing => (readFlag value).map .pollGrowing
  | pollFactor => (readNumber value).map fun n => .pollFactor (max n.toUInt32 1)
  | downloadRetries => (readNumber value).map fun n => .downloadRetries n.toUInt32
  | downloadRetryDelay => (readMillis value).map .downloadRetryDelay
  | chunkBuffer => (readNumber value).map fun n => .chunkBuffer (max n 1)
  | lowWatermark => (readNumber value).map .lowWatermark
  | readTimeout => (readMillis value).map .readTimeout
  | connectTimeout => (readMillis value).map .connectTimeout
  | transportReadTimeout => (readMillis value).map .transportReadTimeout
  | transportRetries => (readNumber value).map fun n => .transportRetries n.toUInt32
  | logLevel => .ok (.logLevel value)
  | logFile => .ok (.logFile value)

/-- What is read and then converted has been read. -/
theorem exists_of_map_eq_ok {ε β γ : Type} {x : Except ε β} {f : β → γ} {z : γ}
    (h : x.map f = .ok z) : ∃ y, x = .ok y ∧ f y = z := by
  cases x with
  | error e => cases h
  | ok y => cases h; exact ⟨y, rfl, rfl⟩

/-! ### Making a change -/

end Settings

namespace Pacing

/-- The pacing with another first wait. -/
def withInterval (span : Duration) : Pacing → Pacing
  | fixed _ => fixed span
  | growing _ factor max => growing span factor max

/-- The pacing with another cap, if its waits grow. -/
def withCap (span : Duration) : Pacing → Pacing
  | fixed d => fixed d
  | growing initial factor _ => growing initial factor span

/-- The pacing with another factor, if its waits grow. -/
def withFactor (factor : UInt32) : Pacing → Pacing
  | fixed d => fixed d
  | growing initial _ max => growing initial factor max

/-- The pacing with waits that grow, by the standard factor up to the standard cap if they did not
before, or with waits that all equal the first. -/
def withGrowth : Bool → Pacing → Pacing
  | true, fixed d => growing d standardFactor standardCap
  | false, growing initial _ _ => fixed initial
  | _, p => p

end Pacing

namespace Settings

/-- Makes a change. -/
def Change.apply (s : Settings) : Change → Settings
  | endpoint text => { s with endpoint := some text }
  | storeEndpoint text => { s with storeEndpoint := some text }
  | database text => { s with query := { s.query with database := some text } }
  | workgroup text => { s with query := { s.query with workgroup := some text } }
  | output text => { s with query := { s.query with output := some text } }
  | backend b => { s with reading := { s.reading with backend := b } }
  | pageSize rows => { s with reading := { s.reading with pageSize := rows } }
  | pageTimeout span => { s with reading := { s.reading with pageTimeout := span } }
  | pollInterval span => { s with polling := s.polling.withInterval span }
  | pollMaxInterval span => { s with polling := s.polling.withCap span }
  | pollGrowing on => { s with polling := s.polling.withGrowth on }
  | pollFactor factor => { s with polling := s.polling.withFactor factor }
  | downloadRetries n => { s with download := { s.download with maxRetries := n } }
  | downloadRetryDelay span => { s with download := { s.download with retryDelay := span } }
  | chunkBuffer chunks => { s with download := { s.download with chunkBuffer := chunks } }
  | lowWatermark bytes => { s with download := { s.download with lowWatermark := bytes } }
  | readTimeout span => { s with download := { s.download with readTimeout := span } }
  | connectTimeout span => { s with transport := { s.transport with connectTimeout := span } }
  | transportReadTimeout span => { s with transport := { s.transport with readTimeout := span } }
  | transportRetries n => { s with transport := { s.transport with maxRetries := n } }
  | logLevel text => { s with log := { s.log with level := some text } }
  | logFile text => { s with log := { s.log with file := some text } }

/-- The change that a property stands for. -/
def readProperty (name value : String) : Except PropertyError Change :=
  match Key.ofName? name with
  | some key => key.read value
  | none => .error .unknownKey

theorem readProperty_name (key : Key) (value : String) :
    readProperty key.name value = key.read value := by
  rw [readProperty, Key.ofName?_name]

/-- Sets one property. -/
def setProperty (s : Settings) (name value : String) : Except Failure Settings :=
  match readProperty name value with
  | .ok change => .ok (change.apply s)
  | .error e => .error (.invalidArgument (e.message name value))

/-- Whether a property is meant for this library. -/
def isOurs (name : String) : Bool :=
  Key.namespaceName.toList.isPrefixOf name.toList

/-- The settings that properties give, taken in order from the defaults. Properties meant for
others are skipped. -/
def ofProperties (properties : List (String × String)) : Except Failure Settings :=
  (properties.filter fun p => isOurs p.1).foldlM (fun s p => s.setProperty p.1 p.2) {}

end QueryResults.Settings
