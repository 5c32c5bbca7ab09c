import QueryResults.Proofs.Service.Log
import QueryResults.Proofs.Store.Object
import QueryResults.Proofs.Streamed.Standing

/-!
# Opening a cursor over a result file

A cursor over a result file is opened by the first call for its columns or for the next row. On the
way it may be interrupted, the sidecar may not come, come too late or not describe any columns, and
the file may fail in the labels or in the first row. A call that fails in any of these points has
changed nothing: as long as no call has succeeded, the cursor is the one that a new token would have
been given to in the beginning, and what comes of it later is what would come of a fresh cursor.

## Main definitions

* `Streamed.OpenFails`: the points in which opening fails.
* `Streamed.AllOrNothing`: what cursors are between their calls.
* `Store.recorded`: a store that keeps all requests with their answers.

## Main results

* `Streamed.opened_error_iff`: when a cursor cannot be opened, and what is left of it.
* `AllOrNothing.run`: every run of a fresh cursor opens it or leaves it fresh.
* `Streamed.fresh_until_opened`: what follows for the calls to come.
-/

namespace QueryResults

open Store (Exchange)

/-- The same store with a record of all its exchanges, which it does not see itself. -/
def Store.recorded {σ : Type} (store : Store (World σ)) : Store (World (σ × List Exchange)) where
  get q w :=
    let (answer, w) := World.inner (store.get q) w
    (answer, { w with outside := (w.outside.1, w.outside.2 ++ [⟨q, answer⟩]) })
  lapse := World.inner store.lapse

namespace Cursor

/-- Whether an answer is one that only an open cursor gives. -/
def Answer.opens : Answer → Bool
  | columns (.ok _) => true
  | moved (.ok _) => true
  | _ => false

namespace Streamed

variable {σ : Type} {store : Store (World σ)} {c c' : Streamed} {w w' : World σ} {e : Failure}

/-! ### Where opening fails -/

/-- The rows of the file before any was read. -/
def unread (c : Streamed) (columns : Schema) : Csv.Reader Download.Reader where
  columns := columns.length
  input := ⟨[], .ofLocation c.location c.settings⟩

/-- The points in which opening a cursor fails, with the failure and the world that it leaves. -/
inductive OpenFails (store : Store (World σ)) (c : Streamed) (w : World σ) :
    Failure → World σ → Prop
  /-- The sidecar does not come: it fails, it is interrupted, or it is too late. -/
  | sidecar {e : Failure} {w' : World σ} (hload : c.loadSidecar store w = (.error e, w')) :
      OpenFails store c w e w'
  | columns {bytes : List UInt8} {fault : Sidecar.Fault} {w' : World σ}
      (hload : c.loadSidecar store w = (.ok bytes, w'))
      (hparse : Sidecar.parse bytes = .error fault) : OpenFails store c w fault.toFailure w'
  | labels {bytes : List UInt8} {columns : Schema} {e : Failure} {w₁ w' : World σ}
      {rows : Csv.Reader Download.Reader} (hload : c.loadSidecar store w = (.ok bytes, w₁))
      (hparse : Sidecar.parse bytes = .ok columns)
      (hlabels : readRow store (c.unread columns) w₁ = (.error e, rows, w')) :
      OpenFails store c w e w'
  | firstRow {bytes : List UInt8} {columns : Schema} {labels : Option Row} {e : Failure}
      {w₁ w₂ w' : World σ} {rows rows' : Csv.Reader Download.Reader}
      (hload : c.loadSidecar store w = (.ok bytes, w₁))
      (hparse : Sidecar.parse bytes = .ok columns)
      (hlabels : readRow store (c.unread columns) w₁ = (.ok labels, rows, w₂))
      (hrow : readRow store rows w₂ = (.error e, rows', w')) : OpenFails store c w e w'

/-- A cursor cannot be opened if it is not open and one of the points is reached. It is left as it
was. -/
theorem opened_error_iff :
    c.opened store w = (.error e, c', w') ↔
      c' = c ∧ c.schema = none ∧ OpenFails store c w e w' := by
  constructor
  · intro h
    obtain ⟨rfl, hs⟩ := of_opened_error h
    refine ⟨rfl, hs, ?_⟩
    unfold opened at h
    rw [hs] at h
    simp only at h
    split at h
    · rename_i hload
      cases h
      exact .sidecar hload
    · rename_i hload
      split at h
      · rename_i hparse
        cases h
        exact .columns hload hparse
      · rename_i hparse
        unfold openFile at h
        simp only at h
        split at h
        · rename_i hlabels
          cases h
          exact .labels hload hparse hlabels
        · rename_i hlabels
          split at h
          · rename_i hrow
            cases h
            exact .firstRow hload hparse hlabels hrow
          · cases h
  · rintro ⟨rfl, hs, h⟩
    unfold opened
    rw [hs]
    cases h with
    | sidecar hload => simp only [hload]
    | columns hload hparse => simp only [hload, hparse]
    | labels hload hparse hlabels =>
      unfold unread at hlabels
      simp only [hload, hparse, openFile, hlabels]
    | firstRow hload hparse hlabels hrow =>
      unfold unread at hlabels
      simp only [hload, hparse, openFile, hlabels, hrow]

/-! ### Calls of a cursor that is not open -/

/-- Asking a closed cursor for the columns opens it or leaves it as it was. -/
theorem Phase.metadata_of_schema {r : Except Failure Schema} (h : Phase c) (hs : c.schema = none)
    (hm : c.metadata store w = (r, c', w')) :
    (Answer.columns r).opens = true ∧ c'.schema.isSome = true ∨
      (Answer.columns r).opens = false ∧ c' = c := by
  unfold Streamed.metadata at hm
  rw [hs] at hm
  simp only at hm
  split at hm
  · cases hm
    exact .inr ⟨rfl, rfl⟩
  · split at hm
    · rename_i ho
      cases hm
      exact .inr ⟨rfl, (opened_error_iff.1 ho).1⟩
    · rename_i c₁ w₁ ho
      obtain ⟨columns, hcolumns⟩ := Option.isSome_iff_exists.1 (h.opened ho).2
      simp only [hcolumns] at hm
      cases hm
      exact .inl ⟨rfl, (h.opened ho).2⟩

/-- Asking a closed cursor for the next row opens it or leaves it as it was. -/
theorem Phase.next_of_schema {r : Except Failure Bool} (h : Phase c) (hs : c.schema = none)
    (hn : c.next store w = (r, c', w')) :
    (Answer.moved r).opens = true ∧ c'.schema.isSome = true ∨
      (Answer.moved r).opens = false ∧ c' = c := by
  obtain ⟨-, hdeferred, hfailed, -, -⟩ := h.closed_of_schema hs
  obtain ⟨h', hstep, -⟩ := h.next hn
  cases hstep with
  | row row _ _ _ ho _ hahead =>
    rw [(frame_of_readAhead hahead).2.2.1]
    exact .inl ⟨rfl, (h.opened ho).2⟩
  | past _ hpast =>
    refine .inl ⟨rfl, ?_⟩
    cases h' with
    | past hschema => exact hschema
    | closed _ _ _ _ hp | reading _ _ _ _ hp | broken _ _ _ _ _ hp | failed _ _ _ _ _ hp =>
      cases hp.symm.trans hpast
  | again e hf => cases hfailed.symm.trans hf
  | interrupted e => exact .inr ⟨rfl, rfl⟩
  | unopened e => exact .inr ⟨rfl, rfl⟩
  | reported e _ hd => cases hdeferred.symm.trans hd

/-! ### Runs -/

/-- A cursor that was not used yet. -/
def fresh (location : Location) (settings : Settings.Download) (interrupt : Token) : Streamed :=
  { location, settings, interrupt }

/-- What a cursor is after some answers: if none of them is one of an open cursor, it is fresh but
for its token; otherwise it is open. -/
inductive AllOrNothing (location : Location) (settings : Settings.Download)
    (answers : List Answer) (c : Streamed) : Prop
  | nothing (hanswers : ∀ a ∈ answers, a.opens = false)
      (hc : c = fresh location settings c.interrupt)
  | all {a : Answer} (ha : a ∈ answers) (hopens : a.opens = true) (hphase : Phase c)
      (hschema : c.schema.isSome = true)

namespace AllOrNothing

variable {connections : Connections σ} {location : Location} {settings : Settings.Download}
  {answers l : List Answer}

/-- What has changed the token at most, with an answer that says nothing of opening. -/
theorem withInterrupt (h : AllOrNothing location settings answers c)
    (hl : ∀ a ∈ l, a.opens = false) (t : Token) :
    AllOrNothing location settings (answers ++ l) { c with interrupt := t } := by
  cases h with
  | nothing hanswers hc =>
    refine .nothing (fun a ha => ?_) (by rw [hc]; rfl)
    rcases List.mem_append.1 ha with ha | ha
    · exact hanswers a ha
    · exact hl a ha
  | all ha hopens hphase hschema =>
    exact .all (List.mem_append_left l ha) hopens (hphase.withInterrupt t) hschema

/-- A call that opens a fresh cursor or leaves it fresh, and leaves an open cursor open. -/
theorem called {a : Answer} (h : AllOrNothing location settings answers c) (hphase : Phase c')
    (hclosed : Phase c → c.schema = none →
      a.opens = true ∧ c'.schema.isSome = true ∨ a.opens = false ∧ c' = c)
    (hopen : c.schema.isSome = true → c'.schema.isSome = true) :
    AllOrNothing location settings (answers ++ [a]) c' := by
  cases h with
  | all ha hopens _ hschema => exact .all (List.mem_append_left _ ha) hopens hphase (hopen hschema)
  | nothing hanswers hc =>
    rcases hclosed (hc ▸ .fresh location settings _) (hc ▸ rfl) with ⟨ha, hs⟩ | ⟨ha, rfl⟩
    · exact .all (List.mem_append_right _ List.mem_cons_self) ha hphase hs
    · refine .nothing (fun b hb => ?_) hc
      rcases List.mem_append.1 hb with hb | hb
      · exact hanswers b hb
      · exact List.mem_singleton.1 hb ▸ ha

theorem phase (h : AllOrNothing location settings answers c) : Phase c := by
  cases h with
  | nothing _ hc => exact hc ▸ .fresh location settings _
  | all _ _ hphase _ => exact hphase

/-- Whatever happens opens a fresh cursor or leaves it fresh. -/
theorem happen {x : Happening σ} {s : Cursor} (h : AllOrNothing location settings answers c)
    (hx : (streamed c).happen connections w x = some (l, s, w')) :
    ∃ c', s = streamed c' ∧ AllOrNothing location settings (answers ++ l) c' := by
  have stays {l : List Answer} (hl : ∀ a ∈ l, a.opens = false) := h.withInterrupt hl c.interrupt
  cases x with
  | called x =>
    cases x with
    | metadata =>
      cases hx
      have hm : c.metadata connections.objects w = _ := rfl
      refine ⟨_, rfl, h.called (h.phase.metadata hm) (fun hp hs => hp.metadata_of_schema hs hm) ?_⟩
      rcases (metadata_cases hm).1 with he | ho
      · rw [he]
        exact id
      · exact fun _ => (h.phase.opened ho).2
    | next pages =>
      cases hx
      have hn : c.next connections.objects w = _ := rfl
      obtain ⟨hphase, -, hcolumns⟩ := h.phase.next hn
      refine ⟨_, rfl, h.called hphase (fun hp hs => hp.next_of_schema hs hn) fun hs => ?_⟩
      obtain ⟨columns, hs⟩ := Option.isSome_iff_exists.1 hs
      exact Option.isSome_iff_exists.2 ⟨columns, hcolumns columns hs⟩
    | setPageSize n =>
      obtain ⟨r, rfl, rfl⟩ := happen_setPageSize hx
      exact ⟨c, rfl, stays (by simp [Answer.opens])⟩
    | clearInterrupt =>
      cases hx
      exact ⟨_, rfl, h.withInterrupt (by simp [Answer.opens]) _⟩
  | given t =>
    cases hx
    exact ⟨_, rfl, h.withInterrupt (by simp) t⟩
  | meanwhile f =>
    cases hx
    exact ⟨c, rfl, stays (by simp)⟩

/-- Every run of a fresh cursor opens it or leaves it fresh. -/
theorem run {happenings : List (Happening σ)} {s : Cursor}
    (h : AllOrNothing location settings answers c)
    (hrun : (streamed c).run connections happenings w = some (l, s, w')) :
    ∃ c', s = streamed c' ∧ AllOrNothing location settings (answers ++ l) c' := by
  refine run_induction
    (P := fun _ answers s _ => ∃ c, s = streamed c ∧ AllOrNothing location settings answers c)
    [] answers ?_ ⟨c, rfl, h⟩ hrun
  rintro _ _ _ _ _ _ _ _ ⟨c, rfl, h⟩ hx
  exact h.happen hx

end AllOrNothing

/-- As long as no call for the columns or for the next row has succeeded, a cursor is a fresh one
with the token that it has now: it knows no columns and no row, stands before the first, and has no
failure to repeat. What comes of it later, the answers and the exchanges with the store, is what
comes of the fresh cursor in the world as it then is. -/
theorem fresh_until_opened {uri : String} {settings : Settings.Download} {interrupt : Token}
    {c₀ : Streamed} (hnew : ofUri uri settings interrupt = .ok c₀)
    {service : Service (World (σ × List Exchange))}
    {happenings : List (Happening (σ × List Exchange))} {answers : List Answer} {s : Cursor}
    {w w₁ : World (σ × List Exchange)}
    (hrun : (streamed c₀).run ⟨service, some store.recorded⟩ happenings w =
      some (answers, s, w₁))
    (hfails : ∀ a ∈ answers, a.opens = false) :
    ∃ c, ofUri uri settings c.interrupt = .ok c ∧ s = streamed c ∧
      (c.schema = none ∧ c.current = none ∧ c.rowNumber = 0 ∧ c.position = .beforeFirst ∧
        c.failed = none) ∧
      ∀ later, (streamed c₀).run ⟨service, some store.recorded⟩ (happenings ++ later) w =
        ((streamed c).run ⟨service, some store.recorded⟩ later w₁).map
          fun (l, s, w) => (answers ++ l, s, w) := by
  obtain ⟨location, hparse, rfl⟩ : ∃ location, Location.parse uri = .ok location ∧
      fresh location settings interrupt = c₀ := by
    unfold ofUri at hnew
    cases hl : Location.parse uri with
    | error e => rw [hl] at hnew; cases hnew
    | ok location => rw [hl] at hnew; exact ⟨location, rfl, Except.ok.inj hnew⟩
  have hstart : AllOrNothing location settings [] (fresh location settings interrupt) :=
    .nothing nofun rfl
  obtain ⟨c, rfl, hc⟩ := hstart.run hrun
  cases hc with
  | all ha hopens => exact absurd hopens (by simp [hfails _ ha])
  | nothing _ hc =>
    refine ⟨c, ?_, rfl, ?_, fun later => ?_⟩
    · rw [ofUri, hparse, hc]
      rfl
    · rw [hc]
      exact ⟨rfl, rfl, rfl, rfl, rfl⟩
    · rw [run_append_eq_bind, hrun]
      rfl

/-- Where a file should lie. -/
def missingLocation : Location := ⟨"bucket", "missing.csv"⟩

/-- The columns of the file. -/
def missingSchema : Schema := [{ name := "n", label := "n" }]

/-- A store with the sidecar of the file, but without the file. Whoever waits for a download is kept
waiting for the times given. -/
def missingStore : Store (World (List Duration)) where
  get q w :=
    (if q.location = missingLocation then .failure (.notFound "No such key")
    else .response ⟨some "v1", none, [.chunk (Sidecar.encode missingSchema)]⟩, w)
  lapse w := w.run fun times => (times.headD .zero, times.tail)

/-- The store next to a service that knows of no query. -/
def missingConnections : Connections (List Duration × List Exchange) where
  service :=
    { submit := fun _ w => (.error (.notFound ""), w)
      status := fun _ w => (.error (.notFound ""), w)
      stop := fun _ w => (.error (.notFound ""), w)
      request := fun _ w => (0, w)
      receive := fun _ w => (none, w)
      abandon := fun _ w => w }
  store := some missingStore.recorded

/-- A cursor over the file. -/
def missingCursor (t : Token) : Streamed := fresh missingLocation {} t

/-- The world with some waiting times to come and some exchanges with the store behind it. -/
def missingWorld (times : List Duration) (l : List Exchange) :
    World (List Duration × List Exchange) where
  interrupts := { issued := 2 }
  outside := (times, l)

/-- The exchange about the sidecar. -/
def sidecarFound : Exchange where
  request := { location := missingLocation.withKeySuffix Sidecar.keySuffix }
  answer := .response ⟨some "v1", none, [.chunk (Sidecar.encode missingSchema)]⟩

/-- The exchange about the file. -/
def fileMissing : Exchange where
  request := { location := missingLocation }
  answer := .failure (.notFound "No such key")

open Download (Reader)

/-- What reading the file fails with. -/
def missingFailure : Failure :=
  (Failure.notFound "No such key").inContext "GET s3://bucket/missing.csv at offset 0: No such key"

/-- The reader of the file when it has failed. -/
def missingReader : Reader :=
  { Reader.ofLocation missingLocation {} with
    outstanding := 16
    failed := some missingFailure.repeated }

/-- The labels cannot be read, since there is no file. -/
theorem readRow_missing (t : Token) :
    readRow missingStore.recorded ((missingCursor t).unread missingSchema)
      (missingWorld [] [sidecarFound, sidecarFound]) =
        (.error missingFailure, { columns := 1, input := ⟨[], missingReader⟩ },
          missingWorld [] [sidecarFound, sidecarFound, fileMissing]) := by
  have hfill : Reader.fill missingStore.recorded (.ofLocation missingLocation {})
      (missingWorld [] [sidecarFound, sidecarFound]) =
        (.failed missingFailure missingReader,
          missingWorld [] [sidecarFound, sidecarFound, fileMissing]) := by cbv
  have hrefill : (Reader.ofLocation missingLocation {}).refill missingStore.recorded
      (missingWorld [] [sidecarFound, sidecarFound]) =
        (.error missingFailure, missingReader,
          missingWorld [] [sidecarFound, sidecarFound, fileMissing]) := by
    rw [Reader.refill_eq, hfill]
  have hread : (Reader.ofLocation missingLocation {}).read missingStore.recorded bufferSize
      (missingWorld [] [sidecarFound, sidecarFound]) =
        (.error missingFailure, missingReader,
          missingWorld [] [sidecarFound, sidecarFound, fileMissing]) := by
    unfold Reader.read
    rw [hrefill]
    rfl
  have hpull : (Reader.feed missingStore.recorded bufferSize).pull
      (.ofLocation missingLocation {}, missingWorld [] [sidecarFound, sidecarFound]) =
        (.broken (.carried missingFailure), missingReader,
          missingWorld [] [sidecarFound, sidecarFound, fileMissing]) := by
    simp only [Reader.feed, hread]
  simp [readRow, unread, missingCursor, missingSchema, fresh, Csv.Reader.mapRest,
    Csv.Reader.nextRow, Input.peek, hpull, Except.mapError, Csv.ReadError.toFailure]

/-- The sidecar comes too late at first. When it has come, nothing is read of the file, and then the
token is cancelled and renewed. -/
def missingCalls : List (Happening (List Duration × List Exchange)) :=
  [.called .metadata, .called (.next 0),
    .meanwhile (World.onInterrupts (·.cancel { number := 1 })), .called .metadata,
    .called .clearInterrupt]

/-- The sidecar that is asked for first takes a second longer than one read may take. -/
def missingTimes : List Duration := [.zero, .ofSeconds 61]

/-- The world after these calls. -/
def missingEnd : World (List Duration × List Exchange) where
  interrupts := { issued := 3, cancelled := [1] }
  outside := ([], [sidecarFound, sidecarFound, fileMissing])

/-- What a cursor answers that has waited too long. -/
def missingDelay : Failure :=
  .timeout "Loading s3://bucket/missing.csv.metadata timed out after 60s"

/-- What a cursor answers whose token is cancelled. -/
def missingInterruption : Failure :=
  .interrupted "Interrupted while reading s3://bucket/missing.csv"

/-- What is answered to these calls. -/
def missingAnswers : List Answer :=
  [.columns (.error missingDelay), .moved (.error missingFailure),
    .columns (.error missingInterruption), .cleared]

/-- All calls fail, the first too late, the second without a file and the third without a
request. -/
theorem run_missing :
    (streamed (missingCursor { number := 1 })).run missingConnections missingCalls
      (missingWorld missingTimes []) =
        some (missingAnswers, streamed (missingCursor { number := 2 }), missingEnd) := by
  have hlate : (missingCursor { number := 1 }).loadSidecar missingStore.recorded
      (missingWorld missingTimes []) = (.error missingDelay, missingWorld [] [sidecarFound]) := by
    cbv
  have hmetadata : (missingCursor { number := 1 }).metadata missingStore.recorded
      (missingWorld missingTimes []) =
        (.error missingDelay, missingCursor { number := 1 }, missingWorld [] [sidecarFound]) := by
    unfold Streamed.metadata
    rw [opened_error_iff.2 ⟨rfl, rfl, .sidecar hlate⟩]
    rfl
  have hload : (missingCursor { number := 1 }).loadSidecar missingStore.recorded
      (missingWorld [] [sidecarFound]) =
        (.ok (Sidecar.encode missingSchema), missingWorld [] [sidecarFound, sidecarFound]) := by cbv
  have hparse : Sidecar.parse (Sidecar.encode missingSchema) = .ok missingSchema := by cbv
  have hnext : (missingCursor { number := 1 }).next missingStore.recorded
      (missingWorld [] [sidecarFound]) =
        (.error missingFailure, missingCursor { number := 1 },
          missingWorld [] [sidecarFound, sidecarFound, fileMissing]) := by
    unfold Streamed.next
    rw [opened_error_iff.2 ⟨rfl, rfl, .labels hload hparse (readRow_missing _)⟩]
    rfl
  simp only [missingCalls, Cursor.run, Cursor.happen, Cursor.call, Cursor.metadata, Cursor.next,
    show missingConnections.objects = missingStore.recorded from rfl, hmetadata, hnext,
    Option.map_some, Option.bind_some]
  rfl

/-- The cursor that waited too long, and then found no file, is a fresh one. It asks for the sidecar
and the file again as that would. -/
theorem fresh_until_opened_missing :
    (streamed (missingCursor { number := 1 })).run missingConnections missingCalls
        (missingWorld missingTimes []) =
      some (missingAnswers, streamed (missingCursor { number := 2 }), missingEnd) ∧
      ofUri "s3://bucket/missing.csv" {} { number := 2 } = .ok (missingCursor { number := 2 }) ∧
      ∀ later, (streamed (missingCursor { number := 1 })).run missingConnections
          (missingCalls ++ later) (missingWorld missingTimes []) =
        ((streamed (missingCursor { number := 2 })).run missingConnections later missingEnd).map
          fun (l, s, w) => (missingAnswers ++ l, s, w) := by
  have hnew : ofUri "s3://bucket/missing.csv" {} { number := 1 } =
      .ok (missingCursor { number := 1 }) := by rfl
  obtain ⟨c, hc, hs, -, hlater⟩ :=
    fresh_until_opened hnew run_missing (by simp [missingAnswers, Answer.opens])
  cases hs
  exact ⟨run_missing, hc, hlater⟩

end Streamed

end Cursor

end QueryResults
