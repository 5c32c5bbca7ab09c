import QueryResults.Proofs.Csv.Faults
import QueryResults.Proofs.Reader.End
import QueryResults.Proofs.Streamed.Standing

/-!
# Failures within a result file

A cursor over a result file meets a failure of the file while it reads one row ahead: the download
fails in the last of the reads that the row takes, or the row is malformed. The step that meets it
still goes on to the row read before. The failure comes out of the stream of bytes as it went in,
is reported in full by the next step that is not interrupted, and is repeated by every step after
that, with nothing asked of the store any more.

## Main definitions

* `Streamed.EndsBody`: the failures that reading a row can end with.
* `Streamed.Meets`, `Streamed.Met`: the step that meets a failure, and its place in a run.
* `Streamed.Recalls`: where the failures come from that a cursor holds.
* `Streamed.Dead`: what can be told of a cursor that has failed.

## Main results

* `Recalls.happen`: a failure was held before or has just been met.
* `Streamed.failure_is_terminal`: the first report, and everything after it.
-/

namespace QueryResults.Cursor.Streamed

variable {σ : Type} {store : Store (World σ)} {connections : Connections σ} {c c' : Streamed}
  {c₀ : Cursor} {w w₀ w' : World σ}

/-! ### Meeting a failure -/

/-- The failures that reading a row can end with: that of the download in the last of the reads
taken, none of which had failed before, or that of a malformed row. -/
inductive EndsBody (store : Store (World σ)) (rows : Csv.Reader Download.Reader) (w : World σ) :
    Failure → Prop
  | download {e : Failure} {r r' : Download.Reader} {v v' : World σ}
      (hgoes : (Download.Reader.feed store bufferSize).Goes (rows.input.rest, w) (r, v))
      (hread : r.read store bufferSize v = (.error e, r', v')) : EndsBody store rows w e
  | malformed (fault : Csv.Fault)
      (hrow : ((rows.mapRest fun reader => (reader, w)).nextRow
        (Download.Reader.feed store bufferSize)).1 = .error (.malformed fault)) :
      EndsBody store rows w (.data fault.message)

/-- A feed breaks with what a read has failed with, and with nothing else. -/
theorem read_of_pull_broken {r : Download.Reader} {f : StreamFault}
    {s : Download.Reader × World σ}
    (h : (Download.Reader.feed store bufferSize).pull (r, w) = (.broken f, s)) :
    ∃ e, f = .carried e ∧ r.read store bufferSize w = (.error e, s) := by
  simp only [Download.Reader.feed] at h
  split at h
  · rename_i e rest hr
    cases h
    exact ⟨e, rfl, hr⟩
  · cases h
  · cases h

/-- What a row that was not read is reported with comes unchanged from the download or says what is
wrong with the row. -/
theorem endsBody_of_readRow {rows rows' : Csv.Reader Download.Reader} {e : Failure}
    (h : readRow store rows w = (.error e, rows', w')) : EndsBody store rows w e := by
  have hends := Csv.ends_nextRow (Download.Reader.feed store bufferSize)
    (rows.mapRest fun reader => (reader, w))
  unfold readRow at h
  simp only [Prod.mk.injEq] at h
  obtain ⟨he, -, -⟩ := h
  generalize hx : ((rows.mapRest fun reader => (reader, w)).nextRow
    (Download.Reader.feed store bufferSize)).1 = x at he hends
  cases x with
  | ok row => cases he
  | error x =>
    cases x with
    | malformed fault =>
      cases he
      exact .malformed fault hx
    | source f =>
      obtain ⟨⟨r, v⟩, hgoes, hpull⟩ := hends
      obtain ⟨e', rfl, hread⟩ := read_of_pull_broken hpull
      cases he
      exact .download hgoes hread

/-- A step goes on to the row that was read ahead, and meets a failure while it reads the one
after it. -/
structure Meets (store : Store (World σ)) (c : Streamed) (w : World σ) (e : Failure)
    (c' : Streamed) (w' : World σ) : Prop where
  answer : c.next store w = (.ok true, c', w')
  held : c'.deferred = some e
  body : ∃ c₁ w₁ rows, c.opened store w = (.ok (), c₁, w₁) ∧ c₁.rows = some rows ∧
    c'.current = c₁.lookahead ∧ EndsBody store rows w₁ e

/-- A cursor that has a row ahead holds no failure. -/
theorem Phase.of_lookahead {row : Row} (h : Phase c) (hschema : c.schema.isSome = true)
    (hfailed : c.failed = none) (hpast : c.afterLast = false) (hrow : c.lookahead = some row) :
    c.rows.isSome = true ∧ c.deferred = none := by
  cases h with
  | closed hs => simp [hs] at hschema
  | reading _ hrows hdeferred => exact ⟨hrows, hdeferred⟩
  | broken _ _ hl => cases hl.symm.trans hrow
  | failed _ _ _ _ hf => cases hf.symm.trans hfailed
  | past _ _ _ hp => cases hp.symm.trans hpast

/-- A failure held after a step that went on to a row was met by it. -/
theorem Phase.meets {e : Failure} (h : Phase c) (hn : c.next store w = (.ok true, c', w'))
    (he : c'.deferred = some e) : Meets store c w e c' w' := by
  cases (h.next hn).2.1 with
  | @row c₁ _ w₁ _ row hfailed hpast hlast ho hlookahead hahead =>
    obtain ⟨h₁, hs₁⟩ := h.opened ho
    obtain ⟨⟨hfailed₁, hpast₁, -⟩, -⟩ := frame_of_opened ho
    obtain ⟨hrows, hdeferred⟩ :=
      h₁.of_lookahead hs₁ (hfailed₁.trans hfailed) (hpast₁.trans hpast) hlookahead
    obtain ⟨rows, hrows⟩ := Option.isSome_iff_exists.1 hrows
    refine ⟨hn, he, c₁, w₁, rows, ho, hrows, ?_, ?_⟩
    · rw [(frame_of_readAhead hahead).2.1, hlookahead]
      rfl
    · rcases readAhead_cases (by exact hrows) hahead with
        ⟨lookahead, rows', -, rfl⟩ | ⟨e', rows', hread, rfl⟩
      · cases hdeferred.symm.trans he
      · cases he
        exact endsBody_of_readRow hread

/-- A failure was met by a step of a run, and `c'` is the cursor after that step. -/
def Met (connections : Connections σ) (c₀ : Cursor) (w₀ : World σ)
    (happenings : List (Happening σ)) (e : Failure) (c' : Streamed) : Prop :=
  ∃ before pages after answers c w w', happenings = before ++ .called (.next pages) :: after ∧
    c₀.run connections before w₀ = some (answers, streamed c, w) ∧
    Meets connections.objects c w e c' w'

/-- What was met stays met. -/
theorem Met.concat {happenings : List (Happening σ)} {e : Failure} (x : Happening σ)
    (h : Met connections c₀ w₀ happenings e c) : Met connections c₀ w₀ (happenings ++ [x]) e c := by
  obtain ⟨before, pages, after, answers, c₁, w₁, w', rfl, hrun, hmeets⟩ := h
  exact ⟨before, pages, after ++ [x], answers, c₁, w₁, w', by simp, hrun, hmeets⟩

/-! ### Holding a failure -/

/-- Only a step to the next row changes the failures that a cursor holds, or its row. -/
theorem Phase.happen {x : Happening σ} {l : List Answer} {s : Cursor} (h : Phase c)
    (hx : (streamed c).happen connections w x = some (l, s, w')) :
    ∃ c', s = streamed c' ∧ Phase c' ∧
      ((∃ pages r, x = .called (.next pages) ∧ l = [.moved r] ∧
          c.next connections.objects w = (r, c', w')) ∨
        c'.deferred = c.deferred ∧ c'.failed = c.failed ∧ c'.current = c.current ∧
          c'.rowNumber = c.rowNumber) := by
  cases x with
  | called x =>
    cases x with
    | metadata =>
      cases hx
      have hm : c.metadata connections.objects w = _ := rfl
      refine ⟨_, rfl, h.metadata hm, .inr ?_⟩
      rcases (metadata_cases hm).1 with he | ho
      · rw [he]
        exact ⟨rfl, rfl, rfl, rfl⟩
      · rcases opened_cases ho with ⟨he, -, -⟩ | ⟨-, columns, rows, lookahead, he⟩
        · rw [he]
          exact ⟨rfl, rfl, rfl, rfl⟩
        · rw [he]
          exact ⟨rfl, rfl, rfl, rfl⟩
    | next pages =>
      cases hx
      have hn : c.next connections.objects w = _ := rfl
      exact ⟨_, rfl, (h.next hn).1, .inl ⟨pages, _, rfl, rfl, rfl⟩⟩
    | setPageSize n =>
      obtain ⟨r, rfl, rfl⟩ := happen_setPageSize hx
      exact ⟨c, rfl, h, .inr ⟨rfl, rfl, rfl, rfl⟩⟩
    | clearInterrupt =>
      cases hx
      exact ⟨_, rfl, h.withInterrupt _, .inr ⟨rfl, rfl, rfl, rfl⟩⟩
  | given t =>
    cases hx
    exact ⟨_, rfl, h.withInterrupt t, .inr ⟨rfl, rfl, rfl, rfl⟩⟩
  | meanwhile f =>
    cases hx
    exact ⟨c, rfl, h, .inr ⟨rfl, rfl, rfl, rfl⟩⟩

/-- Where the failures come from that a cursor holds after a run: the one to be reported was met
with the row that is current, and the one to be repeated was reported in full. -/
structure Recalls (connections : Connections σ) (c₀ : Cursor) (w₀ : World σ)
    (happenings : List (Happening σ)) (answers : List Answer) (c : Streamed) : Prop where
  phase : Phase c
  deferred : ∀ e, c.deferred = some e → ∃ met, Met connections c₀ w₀ happenings e met ∧
    c.current = met.current ∧ c.rowNumber = met.rowNumber
  failed : ∀ f, c.failed = some f → ∃ e met, Met connections c₀ w₀ happenings e met ∧
    f = e.repeated ∧ .moved (.error e) ∈ answers ∧ c.rowNumber = met.rowNumber

variable {happenings : List (Happening σ)} {answers l : List Answer}

/-- What leaves the failures and the row alone leaves it at that. -/
theorem Recalls.frame (x : Happening σ) (h : Recalls connections c₀ w₀ happenings answers c)
    (h' : Phase c') (hdeferred : c'.deferred = c.deferred) (hfailed : c'.failed = c.failed)
    (hcurrent : c'.current = c.current) (hnumber : c'.rowNumber = c.rowNumber) :
    Recalls connections c₀ w₀ (happenings ++ [x]) (answers ++ l) c' where
  phase := h'
  deferred e he := by
    obtain ⟨met, hmet, hc, hn⟩ := h.deferred e (hdeferred ▸ he)
    exact ⟨met, hmet.concat x, hcurrent.trans hc, hnumber.trans hn⟩
  failed f hf := by
    obtain ⟨e, met, hmet, hr, ha, hn⟩ := h.failed f (hfailed ▸ hf)
    exact ⟨e, met, hmet.concat x, hr, List.mem_append_left l ha, hnumber.trans hn⟩

/-- A failure that a cursor holds after a step was held before or has just been met. -/
theorem Recalls.next {pages : Nat} {r : Except Failure Bool}
    (h : Recalls connections c₀ w₀ happenings answers c)
    (hrun : c₀.run connections happenings w₀ = some (answers, streamed c, w))
    (hn : c.next connections.objects w = (r, c', w')) :
    Recalls connections c₀ w₀ (happenings ++ [.called (.next pages)]) (answers ++ [.moved r])
      c' := by
  obtain ⟨h', hstep, -⟩ := h.phase.next hn
  cases hstep with
  | row row hfailed hpast hlast ho hlookahead hahead =>
    refine ⟨h', fun e he => ?_, fun f hf => ?_⟩
    · exact ⟨c', ⟨happenings, pages, [], answers, c, w, w', by simp, hrun,
        h.phase.meets hn he⟩, rfl, rfl⟩
    · have hkept : c'.failed = none :=
        ((frame_of_readAhead hahead).2.2.2.2.1.trans (frame_of_opened ho).1.1).trans hfailed
      cases hkept.symm.trans hf
  | past hnumber hpast =>
    obtain ⟨hdeferred, hfailed⟩ := h'.of_afterLast hpast
    exact
      { phase := h'
        deferred := fun e he => nomatch hdeferred.symm.trans he
        failed := fun f hf => nomatch hfailed.symm.trans hf }
  | again e hfailed => exact h.frame _ h' rfl rfl rfl rfl
  | interrupted e hw he => exact h.frame _ h' rfl rfl rfl rfl
  | unopened e hschema => exact h.frame _ h' rfl rfl rfl rfl
  | reported e hw hdeferred =>
    obtain ⟨met, hmet, -, hnumber⟩ := h.deferred e hdeferred
    exact
      { phase := h'
        deferred := nofun
        failed := fun f hf => by
          cases hf
          exact ⟨e, met, hmet.concat _, rfl, by simp, hnumber⟩ }

/-- Whatever happens, the failures that a cursor holds have been met. -/
theorem Recalls.happen {x : Happening σ} {s : Cursor}
    (h : Recalls connections c₀ w₀ happenings answers c)
    (hrun : c₀.run connections happenings w₀ = some (answers, streamed c, w))
    (hx : (streamed c).happen connections w x = some (l, s, w')) :
    ∃ c', s = streamed c' ∧
      Recalls connections c₀ w₀ (happenings ++ [x]) (answers ++ l) c' := by
  obtain ⟨c', rfl, h', ⟨pages, r, rfl, rfl, hn⟩ | ⟨hdeferred, hfailed, hcurrent, hnumber⟩⟩ :=
    h.phase.happen hx
  · exact ⟨c', rfl, h.next hrun hn⟩
  · exact ⟨c', rfl, h.frame x h' hdeferred hfailed hcurrent hnumber⟩

/-- What a cursor recalls after a run. -/
theorem recalls {location : Location} {settings : Settings.Download} {interrupt : Token}
    (hrun : (streamed { location, settings, interrupt }).run connections happenings w₀ =
      some (answers, streamed c, w)) :
    Recalls connections (streamed { location, settings, interrupt }) w₀ happenings answers c := by
  have hfresh : Recalls connections (streamed { location, settings, interrupt }) w₀ [] []
      { location, settings, interrupt } :=
    { phase := .fresh location settings interrupt
      deferred := nofun
      failed := nofun }
  obtain ⟨-, c', hc, h⟩ := run_induction
    (P := fun past answers s w =>
      (streamed { location, settings, interrupt }).run connections past w₀ = some (answers, s, w) ∧
        ∃ c', s = streamed c' ∧
          Recalls connections (streamed { location, settings, interrupt }) w₀ past answers c')
    [] [] (fun ⟨hrun, c, hc, h⟩ hx => by
      subst hc
      exact ⟨run_concat hrun hx, h.happen hrun hx⟩)
    ⟨rfl, _, rfl, hfresh⟩ hrun
  cases hc
  exact h

/-! ### Having failed -/

/-- What can be told of a cursor that has failed with `e` after `n` rows: it fails again whatever
its token says, and nothing is asked of any service. -/
structure Dead (e : Failure) (n : Nat) (c : Streamed) : Prop where
  next : ∀ {σ : Type} (connections : Connections σ) pages w,
    (streamed c).next connections pages w = some (.error e.repeated, streamed c, w)
  rowNumber : c.rowNumber = n
  value : ∀ i, ∃ f, (streamed c).value i = .error f ∧ f.kind = .invalidState
  position : c.position = .first ∨ c.position = .middle
  idle : ∀ {σ : Type} x (w : World σ), ∃ a c' w', w'.outside = w.outside ∧
    ∀ connections : Connections σ, (streamed c).call connections w x = some (a, c', w')

theorem Phase.dead {e : Failure} (h : Phase c) (hfailed : c.failed = some e.repeated) :
    Dead e c.rowNumber c := by
  have hnext {σ : Type} (connections : Connections σ) (pages : Nat) (w : World σ) :
      (streamed c).next connections pages w = some (.error e.repeated, streamed c, w) := by
    simp only [Cursor.next, Streamed.next, hfailed, Failure.repeated_repeated]
  cases h with
  | closed _ _ _ hf => cases hf.symm.trans hfailed
  | reading _ _ _ hf => cases hf.symm.trans hfailed
  | broken _ _ _ _ hf => cases hf.symm.trans hfailed
  | past _ _ hf => cases hf.symm.trans hfailed
  | failed _ hschema _ _ _ _ hcurrent hnumber =>
    obtain ⟨schema, hschema⟩ := Option.isSome_iff_exists.1 hschema
    refine ⟨hnext, rfl, fun i => ?_, ?_, fun x w => ?_⟩
    · exact ⟨.invalidState "No current row; call next() first",
        by simp only [Cursor.value, Cursor.current, hcurrent, currentValue], rfl⟩
    · have hpos : c.rowNumber ≠ 0 := Nat.pos_iff_ne_zero.1 hnumber
      by_cases hone : c.rowNumber = 1
      · exact .inl (by simp [position, hfailed, Position.of, hone])
      · exact .inr (by simp [position, hfailed, Position.of, hone, hpos])
    · cases x with
      | metadata =>
        exact ⟨_, _, _, rfl, fun connections => by
          simp only [Cursor.call, Cursor.metadata, Streamed.metadata, hschema]; rfl⟩
      | next pages =>
        exact ⟨_, _, _, rfl, fun connections => by
          simp only [Cursor.call, hnext connections pages w, Option.map_some]; rfl⟩
      | setPageSize n =>
        cases hn : checkPageSize n with
        | error e =>
          exact ⟨_, _, _, rfl, fun connections => by
            simp only [Cursor.call, Cursor.setPageSize, setPageSize, hn, Except.map]; rfl⟩
        | ok u =>
          exact ⟨_, _, _, rfl, fun connections => by
            simp only [Cursor.call, Cursor.setPageSize, setPageSize, hn, Except.map]; rfl⟩
      | clearInterrupt =>
        exact ⟨_, _, (w.token (·.renew c.interrupt)).2, rfl, fun connections => rfl⟩

/-- A cursor that has failed stays so. -/
theorem Phase.dead_of_run {e : Failure} {s : Cursor} (h : Phase c)
    (hfailed : c.failed = some e.repeated)
    (hrun : (streamed c).run connections happenings w = some (l, s, w')) :
    ∃ c', s = streamed c' ∧ Dead e c.rowNumber c' := by
  obtain ⟨c', rfl, h', hfailed', hnumber⟩ := run_induction
    (P := fun _ _ s _ => ∃ c', s = streamed c' ∧ Phase c' ∧ c'.failed = some e.repeated ∧
      c'.rowNumber = c.rowNumber)
    [] [] (fun {_ _ s w x _ _ _} ⟨c₁, hs, h₁, hfailed₁, hnumber₁⟩ hx => by
      subst hs
      obtain ⟨c', hs, h', ⟨pages, r, -, -, hn⟩ | ⟨-, hf, -, hnumber⟩⟩ := h₁.happen hx
      · simp only [Streamed.next, hfailed₁, Prod.mk.injEq] at hn
        obtain ⟨-, rfl, -⟩ := hn
        exact ⟨c₁, hs, h₁, hfailed₁, hnumber₁⟩
      · exact ⟨c', hs, h', hf.trans hfailed₁, hnumber.trans hnumber₁⟩)
    ⟨c, rfl, h, hfailed, rfl⟩ hrun
  exact ⟨c', rfl, hnumber ▸ h'.dead hfailed'⟩

/-- Once a cursor over a result file is open, a step fails for another reason than an interrupt only
with a failure of the file that an earlier step has met, which went on to its row all the same. The
failure is reported in full and then repeated, and everything that comes after is as for any cursor
that has failed. -/
theorem failure_is_terminal {location : Location} {settings : Settings.Download}
    {interrupt : Token} {pages : Nat} {e : Failure} {s : Cursor}
    (hrun : (streamed { location, settings, interrupt }).run connections happenings w₀ =
      some (answers, streamed c, w))
    (hopen : c.schema.isSome = true)
    (hnext : (streamed c).next connections pages w = some (.error e, s, w'))
    (hkind : e.kind ≠ .interrupted) :
    (∃ b met, Met connections (streamed { location, settings, interrupt }) w₀ happenings b met ∧
        c.rowNumber = met.rowNumber ∧
        (e = b ∧ c.current = met.current ∨ e = b.repeated ∧ .moved (.error b) ∈ answers)) ∧
      w' = w ∧
      ∀ {connections' : Connections σ} {later answers' s' w''},
        s.run connections' later w' = some (answers', s', w'') →
          ∃ c', s' = streamed c' ∧ Dead e c.rowNumber c' := by
  have h := recalls hrun
  generalize hr : c.next connections.objects w = r at hnext
  obtain ⟨r, c', w₁⟩ := r
  simp only [Cursor.next, hr] at hnext
  cases hnext
  obtain ⟨h', hstep, -⟩ := h.phase.next hr
  cases hstep with
  | again b hfailed =>
    obtain ⟨b, met, hmet, rfl, hanswer, hnumber⟩ := h.failed b hfailed
    exact ⟨⟨b, met, hmet, hnumber, .inr ⟨rfl, hanswer⟩⟩, rfl,
      fun hlater => h.phase.dead_of_run hfailed hlater⟩
  | interrupted e hw he => exact absurd he hkind
  | unopened e hschema => simp [hschema] at hopen
  | reported e hw hdeferred =>
    obtain ⟨met, hmet, hcurrent, hnumber⟩ := h.deferred e hdeferred
    exact ⟨⟨e, met, hmet, hnumber, .inl ⟨rfl, hcurrent⟩⟩, rfl,
      fun hlater => h'.dead_of_run rfl hlater⟩

/-! ### A file that breaks off -/

/-- Where the file lies. -/
def cutLocation : Location := ⟨"bucket", "cut.csv"⟩

/-- The columns of its sidecar. -/
def cutSchema : Schema := [{ name := "n", label := "n" }]

/-- A store whose file breaks off after its first row and cannot be had from there. -/
def cutStore : Store (World Unit) where
  get q w :=
    (if q.location = cutLocation then
      match q.start with
      | none =>
        .response ⟨some "v1", none, [.chunk [10, 10], .failure (.io "Connection reset")]⟩
      | some _ => .failure (.io "Connection refused")
    else .response ⟨some "v2", none, [.chunk (Sidecar.encode cutSchema)]⟩, w)

/-- The store next to a service that knows of no query. -/
def cutConnections : Connections Unit where
  service :=
    { submit := fun _ w => (.error (.notFound ""), w)
      status := fun _ w => (.error (.notFound ""), w)
      stop := fun _ w => (.error (.notFound ""), w)
      request := fun _ w => (0, w)
      receive := fun _ w => (none, w)
      abandon := fun _ w => w }
  store := some cutStore

/-- The world of the store. -/
def cutWorld : World Unit := { outside := () }

/-- A cursor over the file that starts a download again once. -/
def cutCursor : Streamed where
  location := cutLocation
  settings := { maxRetries := 1 }
  interrupt := { number := 1 }

/-- What the download fails with in the end. -/
def cutFailure : Failure :=
  let context := "GET s3://bucket/cut.csv at offset 2: "
  ((Failure.io "Connection refused").inContext (context ++ "Connection refused")).withSuppressed
    [(Failure.io "Connection reset").inContext (context ++ "Connection reset")]

open Download (Reader)

/-- The reader of the file when it has handed out all that comes. -/
def cutReader : Reader :=
  ((Reader.fill cutStore (.ofLocation cutLocation cutCursor.settings) cutWorld).1.reader.take
    bufferSize).2

/-- The reader when it has started again. -/
def cutReaderAgain : Reader := (Reader.fill cutStore cutReader cutWorld).1.reader

/-- The reader when it has failed. -/
def cutReaderFailed : Reader := (Reader.fill cutStore cutReaderAgain cutWorld).1.reader

/-- The first read hands out the labels and a row. -/
theorem pull_cut :
    (Reader.feed cutStore bufferSize).pull (.ofLocation cutLocation cutCursor.settings, cutWorld) =
      (.piece 10 [10], cutReader, cutWorld) := by
  have hfill : Reader.fill cutStore (.ofLocation cutLocation cutCursor.settings) cutWorld =
      (.ready (Reader.fill cutStore (.ofLocation cutLocation cutCursor.settings) cutWorld).1.reader,
        cutWorld) := by cbv
  have htake : ((Reader.fill cutStore (.ofLocation cutLocation cutCursor.settings)
      cutWorld).1.reader.take bufferSize).1 = [10, 10] := by cbv
  have hread : (Reader.ofLocation cutLocation cutCursor.settings).read cutStore bufferSize
      cutWorld = (.ok [10, 10], cutReader, cutWorld) := by
    unfold Reader.read
    rw [Reader.refill_eq, hfill]
    simp only [htake]
    rfl
  simp only [Reader.feed, hread]

/-- The second fails, and carries the failure for which it has started again. -/
theorem pull_cut_again :
    (Reader.feed cutStore bufferSize).pull (cutReader, cutWorld) =
      (.broken (.carried cutFailure), cutReaderFailed, cutWorld) := by
  have hfill : Reader.fill cutStore cutReader cutWorld = (.restarted cutReaderAgain, cutWorld) := by
    cbv
  have hfill' : Reader.fill cutStore cutReaderAgain cutWorld =
      (.failed cutFailure cutReaderFailed, cutWorld) := by cbv
  have hrefill : cutReader.refill cutStore cutWorld =
      (.error cutFailure, cutReaderFailed, cutWorld) := by
    rw [Reader.refill_eq, hfill]
    simp only
    rw [Reader.refill_eq, hfill']
  have hqueue : cutReader.queue = [] := by cbv
  have hfinished : cutReader.finished = false := by cbv
  have hfailed : cutReader.failed = none := by cbv
  have hread : cutReader.read cutStore bufferSize cutWorld =
      (.error cutFailure, cutReaderFailed, cutWorld) := by
    unfold Reader.read
    rw [hrefill, hqueue, hfinished, hfailed]
    rfl
  simp only [Reader.feed, hread]

/-- The cursor on the first row. -/
def cutCursorOnRow : Streamed :=
  { cutCursor with
    schema := some cutSchema
    rows := some { columns := 1, rowsRead := 2, input := ⟨[], cutReaderFailed⟩ }
    current := some [none]
    deferred := some cutFailure
    rowNumber := 1 }

/-- The first step goes on to the row, though the file breaks off behind it. -/
theorem next_cut : cutCursor.next cutStore cutWorld = (.ok true, cutCursorOnRow, cutWorld) := by
  have hlabels : readRow cutStore
      { columns := 1, input := ⟨[], .ofLocation cutLocation cutCursor.settings⟩ } cutWorld =
        (.ok (some [none]), { columns := 1, rowsRead := 1, input := ⟨[10], cutReader⟩ },
          cutWorld) := by
    simp [readRow, Csv.Reader.mapRest, Csv.Reader.nextRow, Input.peek, pull_cut, Csv.readFields,
      Csv.readField, Csv.expectAfter, Csv.quote, Csv.newline, Input.skip, Except.mapError]
  have hrow : readRow cutStore { columns := 1, rowsRead := 1, input := ⟨[10], cutReader⟩ }
      cutWorld =
        (.ok (some [none]), { columns := 1, rowsRead := 2, input := ⟨[], cutReader⟩ },
          cutWorld) := by
    simp [readRow, Csv.Reader.mapRest, Csv.Reader.nextRow, Input.peek, Csv.readFields,
      Csv.readField, Csv.expectAfter, Csv.quote, Csv.newline, Input.skip, Except.mapError]
  have hbroken : readRow cutStore { columns := 1, rowsRead := 2, input := ⟨[], cutReader⟩ }
      cutWorld =
        (.error cutFailure, { columns := 1, rowsRead := 2, input := ⟨[], cutReaderFailed⟩ },
          cutWorld) := by
    simp [readRow, Csv.Reader.mapRest, Csv.Reader.nextRow, Input.peek, pull_cut_again,
      Except.mapError, Csv.ReadError.toFailure]
  have hsidecar : cutCursor.loadSidecar cutStore cutWorld =
      (.ok (Sidecar.encode cutSchema), cutWorld) := by cbv
  have hparse : Sidecar.parse (Sidecar.encode cutSchema) = .ok cutSchema := by cbv
  have hopened : cutCursor.opened cutStore cutWorld =
      (.ok (), { cutCursor with
        schema := some cutSchema
        rows := some { columns := 1, rowsRead := 2, input := ⟨[], cutReader⟩ }
        lookahead := some [none] }, cutWorld) := by
    unfold opened
    rw [hsidecar]
    simp only [hparse]
    unfold openFile
    simp only [show cutSchema.length = 1 from rfl,
      show cutCursor.location = cutLocation from rfl, hlabels, hrow]
    rfl
  unfold Streamed.next
  rw [hopened]
  simp only [cutCursor, checkInterrupt, advance, readAhead]
  simp [hbroken]
  rfl

/-- The download that broke off is reported with the one before it, and stays. -/
theorem failure_is_terminal_cut :
    (streamed cutCursor).run cutConnections [.called (.next 0)] cutWorld =
        some ([.moved (.ok true)], streamed cutCursorOnRow, cutWorld) ∧
      (streamed cutCursorOnRow).next cutConnections 0 cutWorld =
        some (.error cutFailure, streamed (cutCursorOnRow.fail cutFailure), cutWorld) ∧
      cutFailure.suppressed.length = 1 ∧
      ∀ {later : List (Happening Unit)} {answers s w},
        (streamed (cutCursorOnRow.fail cutFailure)).run cutConnections later cutWorld =
          some (answers, s, w) → ∃ c, s = streamed c ∧ Dead cutFailure 1 c := by
  have hnext : (streamed cutCursor).next cutConnections 0 cutWorld =
      some (.ok true, streamed cutCursorOnRow, cutWorld) := by
    simp only [Cursor.next, show cutConnections.objects = cutStore from rfl, next_cut]
  have hrun : (streamed cutCursor).run cutConnections [.called (.next 0)] cutWorld =
      some ([.moved (.ok true)], streamed cutCursorOnRow, cutWorld) := by
    simp only [Cursor.run, Cursor.happen, Cursor.call, hnext, Option.map_some, Option.bind_some,
      List.append_nil]
  have hfails : (streamed cutCursorOnRow).next cutConnections 0 cutWorld =
      some (.error cutFailure, streamed (cutCursorOnRow.fail cutFailure), cutWorld) := rfl
  have hkind : cutFailure.kind ≠ .interrupted := by decide
  exact ⟨hrun, hfails, rfl, fun hlater =>
    (failure_is_terminal hrun rfl hfails hkind).2.2 hlater⟩

end QueryResults.Cursor.Streamed
