import QueryResults.Settings.Property

/-!
# Setting properties in place

Settings that are held in place are written to while a property is read. A failure ends the work on
a property where it occurs; what was written before stays written.

Settings of waits are written only where there is something to set: waits that do not grow have
neither a cap nor a factor.

## Main definitions

* `Settings.Key.assign`: the work on the property of a key.
* `Settings.assign`: sets one property in place.
-/

namespace QueryResults.Settings

/-- Work on settings held in place. -/
abbrev Editing := ExceptT PropertyError (StateM Settings)

/-- Reads the text of a property and writes to the setting of its key. -/
def Key.assign (value : String) : Key → Editing Unit
  | endpoint => modify fun s => { s with endpoint := some value }
  | storeEndpoint => modify fun s => { s with storeEndpoint := some value }
  | database => modify fun s => { s with query.database := some value }
  | workgroup => modify fun s => { s with query.workgroup := some value }
  | output => modify fun s => { s with query.output := some value }
  | backend => do
    let b ← readBackend value
    modify fun s => { s with reading.backend := b }
  | pageSize => do
    let n ← readNumber value
    if n.toNat = 0 ∨ maxPageSize < n.toNat then
      throw .pageSizeOutOfRange
    modify fun s => { s with reading.pageSize := n.toNat }
  | pageTimeout => do
    let span ← readMillis value
    modify fun s => { s with reading.pageTimeout := span }
  | pollInterval => do
    let span ← readMillis value
    match (← get).polling with
    | .fixed _ => modify fun s => { s with polling := .fixed span }
    | .growing _ factor cap => modify fun s => { s with polling := .growing span factor cap }
  | pollMaxInterval => do
    let cap ← readMillis value
    if let .growing initial factor _ := (← get).polling then
      modify fun s => { s with polling := .growing initial factor cap }
  | pollGrowing => do
    let on ← readFlag value
    match (← get).polling, on with
    | .growing initial _ _, false => modify fun s => { s with polling := .fixed initial }
    | .fixed span, true =>
      modify fun s =>
        { s with polling := .growing span Pacing.standardFactor Pacing.standardCap }
    | _, _ => pure ()
  | pollFactor => do
    let n ← readNumber value
    if let .growing initial _ cap := (← get).polling then
      modify fun s => { s with polling := .growing initial (max n.toUInt32 1) cap }
  | downloadRetries => do
    let n ← readNumber value
    modify fun s => { s with download.maxRetries := n.toUInt32 }
  | downloadRetryDelay => do
    let span ← readMillis value
    modify fun s => { s with download.retryDelay := span }
  | chunkBuffer => do
    let n ← readNumber value
    modify fun s => { s with download.chunkBuffer := max n 1 }
  | lowWatermark => do
    let n ← readNumber value
    modify fun s => { s with download.lowWatermark := n }
  | readTimeout => do
    let span ← readMillis value
    modify fun s => { s with download.readTimeout := span }
  | connectTimeout => do
    let span ← readMillis value
    modify fun s => { s with transport.connectTimeout := span }
  | transportReadTimeout => do
    let span ← readMillis value
    modify fun s => { s with transport.readTimeout := span }
  | transportRetries => do
    let n ← readNumber value
    modify fun s => { s with transport.maxRetries := n.toUInt32 }
  | logLevel => modify fun s => { s with log.level := some value }
  | logFile => modify fun s => { s with log.file := some value }

/-- Sets one property in place. -/
def assign (s : Settings) (name value : String) : Except Failure Unit × Settings :=
  let work : Editing Unit :=
    match Key.ofName? name with
    | some key => key.assign value
    | none => throw .unknownKey
  let (result, s) := work.run.run s
  (result.mapError fun e => .invalidArgument (e.message name value), s)

end QueryResults.Settings
