import QueryResults.Cursor.Streamed
import QueryResults.Proofs.Csv.RoundTrip

/-!
# The stages of a cursor over a result file

A cursor over a result file goes through stages. It is closed, or it is one row ahead of its caller,
or it has read the end of the file and the current row is the last; once it has met a fault of the
file it reports it with the next step and fails for good; and at the end it is past the last row. In
every stage the rows exposed so far are the first rows of the file without its labels, and only in
the stages at the end need they be all of them.

What is read of a file is told by a `Source`: how the rest of the file is held by a reader, and
which faults are expected. Where no fault is, the cursor never fails.

## Main definitions

* `Streamed.Source`, `Source.Backs`: a file and how a store lets it be read.
* `Streamed.Stage`, `Streamed.Along`: the stages and the invariant.
* `Streamed.Moved`: what a step to the next row has come to.

## Main results

* `Source.Backs.opened`, `Along.advance`, `Along.next`, `Along.metadata`.
-/

namespace QueryResults.Cursor.Streamed

open Csv (encodeRows Reads)

variable {σ : Type} {store : Store (World σ)}

/-- A result file, how its bytes are held by the reader of its location, the faults that are
expected of it, and the worlds in which it is read. -/
structure Source (σ : Type) where
  location : Location
  settings : Settings.Download
  schema : Schema
  labels : Row
  rows : List Row
  Left : List UInt8 → Download.Reader → Prop
  Expected : StreamFault → Prop
  Calm : World σ → Prop

/-- When a store lets a file be read: its rows all have one field a column, the bytes handed out are
those of the rows, a sidecar that is loaded describes the columns, and a calm world stays calm. -/
structure Source.Backs (src : Source σ) (store : Store (World σ)) : Prop where
  columns_pos : 0 < src.schema.length
  width : ∀ row ∈ src.labels :: src.rows, row.length = src.schema.length
  start : src.Left (encodeRows (src.labels :: src.rows)) (.ofLocation src.location src.settings)
  carries : (Download.Reader.feed store bufferSize).Carries
    (fun bytes v => src.Left bytes v.1 ∧ src.Calm v.2) src.Expected
  sidecar : ∀ {c : Streamed} {w w' : World σ} {bytes}, c.location = src.location →
    c.settings = src.settings → src.Calm w → c.loadSidecar store w = (.ok bytes, w') →
    Sidecar.parse bytes = .ok src.schema ∧ src.Calm w'

/-! ### Reading rows -/

/-- A reader of rows that holds the given rows of a file. -/
structure Holds (src : Source σ) (rows : List Row) (r : Csv.Reader Download.Reader) : Prop where
  columns_eq : r.columns = src.schema.length
  input : r.input.Holds src.Left (encodeRows rows)

/-- The next row is the first that is held, unless there is an expected fault. -/
theorem Source.Backs.readRow {src : Source σ} (h : src.Backs store) {rows : List Row}
    {r : Csv.Reader Download.Reader} (hr : Holds src rows r)
    (hrows : ∀ row ∈ rows, row.length = src.schema.length) {w : World σ} (hw : src.Calm w) :
    (∃ f r' w', Streamed.readRow store r w = (.error (StreamFault.toFailure f), r', w') ∧
        src.Expected f) ∨
      ∃ r' w', Streamed.readRow store r w = (.ok rows.head?, r', w') ∧ Holds src rows.tail r' ∧
        src.Calm w' := by
  have hpos : 0 < (r.mapRest fun reader => (reader, w)).columns := by
    rw [Csv.Reader.mapRest, hr.columns_eq]
    exact h.columns_pos
  obtain ⟨rest, hb, hleft⟩ := hr.input
  have hread := Csv.reads_nextRow h.carries hpos
    (fun row hm => (hrows row hm).trans hr.columns_eq.symm) ⟨rest, hb, hleft, hw⟩
  have hcolumns := Csv.columns_nextRow (Download.Reader.feed store bufferSize)
    (r.mapRest fun reader => (reader, w))
  unfold Streamed.readRow
  generalize (r.mapRest fun reader => (reader, w)).nextRow (Download.Reader.feed store bufferSize) =
    x at hread hcolumns
  obtain ⟨x, r'⟩ := x
  rcases hread with ⟨f, hx, hf⟩ | ⟨hx, rest', hb', hleft', hw'⟩
  · simp only at hx
    subst hx
    exact .inl ⟨f, _, _, rfl, hf⟩
  · simp only at hx
    subst hx
    exact .inr ⟨_, _, rfl, ⟨hcolumns.trans hr.columns_eq, rest', hb', hleft'⟩, hw'⟩

/-! ### Stages -/

/-- Where a cursor over a result file stands, having exposed the given rows. -/
inductive Stage (src : Source σ) (exposed : List Row) (c : Streamed) : Prop
  | closed (hschema : c.schema = none) (hfailed : c.failed = none) (hover : c.afterLast = false)
      (hdeferred : c.deferred = none) (hexposed : exposed = []) (hcurrent : c.current = none)
  | ahead (row : Row) (rest : List Row) (r : Csv.Reader Download.Reader)
      (hschema : c.schema = some src.schema) (hfailed : c.failed = none)
      (hover : c.afterLast = false) (hdeferred : c.deferred = none)
      (hlookahead : c.lookahead = some row) (hrows : c.rows = some r) (hr : Holds src rest r)
      (hsplit : src.rows = exposed ++ row :: rest) (hcurrent : c.current = exposed.getLast?)
  | last (hschema : c.schema = some src.schema) (hfailed : c.failed = none)
      (hover : c.afterLast = false) (hdeferred : c.deferred = none)
      (hlookahead : c.lookahead = none) (hrows : c.rows.isSome = true)
      (hexposed : exposed = src.rows) (hcurrent : c.current = exposed.getLast?)
  | faulty (f : StreamFault) (hf : src.Expected f) (hschema : c.schema = some src.schema)
      (hfailed : c.failed = none) (hover : c.afterLast = false)
      (hdeferred : c.deferred = some f.toFailure) (hexposed : exposed <+: src.rows)
  | failed (f : StreamFault) (hf : src.Expected f) (hschema : c.schema = some src.schema)
      (hfailed : c.failed.isSome = true) (hexposed : exposed <+: src.rows)
  | past (hschema : c.schema = some src.schema) (hfailed : c.failed = none)
      (hover : c.afterLast = true) (hexposed : exposed = src.rows) (hcurrent : c.current = none)

/-- A cursor over a result file that has exposed the given rows of it. -/
structure Along (src : Source σ) (exposed : List Row) (c : Streamed) : Prop where
  location_eq : c.location = src.location
  settings_eq : c.settings = src.settings
  rowNumber : c.rowNumber = exposed.length
  stage : Stage src exposed c

/-- What a step to the next row has come to. A failure has a reason; else the world stays calm. -/
inductive Moved (src : Source σ) (exposed : List Row) (reason : Prop) (c' : Streamed)
    (w' : World σ) : Except Failure Bool → Prop
  | row (row : Row) (hc : c'.current = some row) (h : Along src (exposed ++ [row]) c')
      (hw : ¬reason → src.Calm w') : Moved src exposed reason c' w' (.ok true)
  | past (h : Along src exposed c') (ha : c'.afterLast = true) (hf : c'.failed = none)
      (hw : src.Calm w') : Moved src exposed reason c' w' (.ok false)
  | failed (e : Failure) (hr : reason) (h : Along src exposed c') :
      Moved src exposed reason c' w' (.error e)

variable {src : Source σ} {exposed : List Row} {c c' : Streamed} {w w' : World σ}

theorem Moved.imp {reason reason' : Prop} {r : Except Failure Bool}
    (h : Moved src exposed reason c' w' r) (himp : reason → reason') :
    Moved src exposed reason' c' w' r := by
  cases h with
  | row row hc h hw => exact .row row hc h fun hno => hw (mt himp hno)
  | past h ha hf hw => exact .past h ha hf hw
  | failed e hr h => exact .failed e (himp hr) h

theorem Along.exposed_prefix (h : Along src exposed c) : exposed <+: src.rows := by
  cases h.stage with
  | closed _ _ _ _ hexposed _ => exact hexposed ▸ List.nil_prefix
  | ahead row rest r _ _ _ _ _ _ _ hsplit _ => exact ⟨_, hsplit.symm⟩
  | last _ _ _ _ _ _ hexposed _ => exact hexposed ▸ List.prefix_rfl
  | faulty f _ _ _ _ _ hexposed => exact hexposed
  | failed f _ _ _ hexposed => exact hexposed
  | past _ _ _ hexposed _ => exact hexposed ▸ List.prefix_rfl

/-- A cursor without columns was not opened yet. -/
theorem Stage.of_schema_eq_none (h : Stage src exposed c) (hschema : c.schema = none) :
    c.failed = none ∧ c.afterLast = false ∧ c.deferred = none ∧ exposed = [] ∧
      c.current = none := by
  cases h with
  | closed _ hfailed hover hdeferred hexposed hcurrent =>
    exact ⟨hfailed, hover, hdeferred, hexposed, hcurrent⟩
  | ahead _ _ _ hs => cases hschema.symm.trans hs
  | last hs => cases hschema.symm.trans hs
  | faulty _ _ hs => cases hschema.symm.trans hs
  | failed _ _ hs => cases hschema.symm.trans hs
  | past hs => cases hschema.symm.trans hs

/-- The columns of a cursor are those of the file. -/
theorem Stage.schema_eq {columns : Schema} (h : Stage src exposed c)
    (hschema : c.schema = some columns) : c.schema = some src.schema := by
  cases h with
  | closed hs => cases hschema.symm.trans hs
  | ahead _ _ _ hs => exact hs
  | last hs => exact hs
  | faulty _ _ hs => exact hs
  | failed _ _ hs => exact hs
  | past hs => exact hs

/-- Past the end all rows of the file are exposed and none is current. -/
theorem Stage.of_afterLast (h : Stage src exposed c) (ha : c.afterLast = true)
    (hf : c.failed = none) : exposed = src.rows ∧ c.current = none := by
  cases h with
  | closed _ _ hover => cases hover.symm.trans ha
  | ahead row rest r _ _ hover => cases hover.symm.trans ha
  | last _ _ hover => cases hover.symm.trans ha
  | faulty f _ _ _ hover => cases hover.symm.trans ha
  | failed f _ _ hfailed => simp [hf] at hfailed
  | past _ _ _ hexposed hcurrent => exact ⟨hexposed, hcurrent⟩

/-! ### Opening and reading ahead -/

/-- A cursor that has looked at the first of the rows still to come. -/
theorem Stage.ofLookahead {rest : List Row} {r : Csv.Reader Download.Reader}
    (hschema : c.schema = some src.schema) (hfailed : c.failed = none)
    (hover : c.afterLast = false) (hdeferred : c.deferred = none)
    (hlookahead : c.lookahead = rest.head?) (hrows : c.rows = some r) (hr : Holds src rest.tail r)
    (hsplit : src.rows = exposed ++ rest) (hcurrent : c.current = exposed.getLast?) :
    Stage src exposed c := by
  cases rest with
  | nil =>
    exact .last hschema hfailed hover hdeferred hlookahead (by rw [hrows]; rfl)
      (by rw [hsplit, List.append_nil]) hcurrent
  | cons row rest =>
    exact .ahead row rest r hschema hfailed hover hdeferred hlookahead hrows hr hsplit hcurrent

/-- Opening a file leaves the labels out and looks at the first row. -/
theorem Source.Backs.openFile (hsrc : src.Backs store) (h : Along src [] c)
    (hschema : c.schema = none) (hw : src.Calm w) :
    (∃ e w' f, c.openFile store src.schema w = (.error e, c, w') ∧ src.Expected f) ∨
      ∃ c' w', c.openFile store src.schema w = (.ok (), c', w') ∧ Along src [] c' ∧
        c'.schema = some src.schema ∧ c'.failed = c.failed ∧ c'.afterLast = c.afterLast ∧
        c'.interrupt = c.interrupt ∧ src.Calm w' := by
  have hstart : Holds src (src.labels :: src.rows)
      { columns := src.schema.length
        input := ⟨[], .ofLocation c.location c.settings⟩ : Csv.Reader Download.Reader } :=
    { columns_eq := rfl
      input := ⟨_, rfl, h.location_eq ▸ h.settings_eq ▸ hsrc.start⟩ }
  obtain ⟨hfailed, hover, hdeferred, -, hcurrent⟩ := h.stage.of_schema_eq_none hschema
  unfold Streamed.openFile
  rcases hsrc.readRow hstart hsrc.width hw with
    ⟨f, r₁, w₁, hread, hf⟩ | ⟨r₁, w₁, hread, hr₁, hw₁⟩
  · simp only [hread]
    exact .inl ⟨_, _, f, rfl, hf⟩
  · have hwidth : ∀ row ∈ src.rows, row.length = src.schema.length :=
      fun row hm => hsrc.width row (List.mem_cons_of_mem _ hm)
    simp only [hread]
    rcases hsrc.readRow hr₁ hwidth hw₁ with
      ⟨f, r₂, w₂, hread', hf⟩ | ⟨r₂, w₂, hread', hr₂, hw₂⟩
    · simp only [hread']
      exact .inl ⟨_, _, f, rfl, hf⟩
    · simp only [hread']
      refine .inr ⟨_, _, rfl, ?_, rfl, rfl, rfl, rfl, hw₂⟩
      exact
        { location_eq := h.location_eq
          settings_eq := h.settings_eq
          rowNumber := h.rowNumber
          stage := .ofLookahead rfl hfailed hover hdeferred rfl rfl hr₂ rfl hcurrent }

/-- A cursor that is open stays as it is, and opening one that is not leaves it before the first
row. -/
theorem Source.Backs.opened (hsrc : src.Backs store) (h : Along src exposed c) (hw : src.Calm w)
    (ho : c.opened store w = (.ok (), c', w')) :
    Along src exposed c' ∧ c'.schema = some src.schema ∧ c'.failed = c.failed ∧
      c'.afterLast = c.afterLast ∧ src.Calm w' := by
  unfold Streamed.opened at ho
  split at ho
  · rename_i columns hschema
    cases ho
    exact ⟨h, h.stage.schema_eq hschema, rfl, rfl, hw⟩
  · rename_i hschema
    obtain ⟨-, -, -, rfl, -⟩ := h.stage.of_schema_eq_none hschema
    split at ho
    · cases ho
    · rename_i bytes w₁ hload
      obtain ⟨hparse, hw₁⟩ := hsrc.sidecar h.location_eq h.settings_eq hw hload
      rw [hparse] at ho
      rcases hsrc.openFile h hschema hw₁ with
        ⟨e, w₂, f, he, -⟩ | ⟨c₂, w₂, he, h₂, hs₂, hf₂, ha₂, -, hw₂⟩
      · cases he.symm.trans ho
      · cases he.symm.trans ho
        exact ⟨h₂, hs₂, hf₂, ha₂, hw₂⟩

/-- Going on to the row that was read ahead. -/
theorem Along.advance (hsrc : src.Backs store) (h : Along src exposed c)
    (hschema : c.schema = some src.schema) (hfailed : c.failed = none) (hover : c.afterLast = false)
    (hw : src.Calm w) :
    Moved src exposed (∃ f, src.Expected f) (c.advance store w).2.1 (c.advance store w).2.2
      (c.advance store w).1 := by
  unfold Streamed.advance
  cases h.stage with
  | closed hs => cases hschema.symm.trans hs
  | failed _ _ _ hf => simp [hfailed] at hf
  | past _ _ ha => cases hover.symm.trans ha
  | faulty f hf _ _ _ hdeferred hexposed =>
    rw [hdeferred]
    refine .failed _ ⟨f, hf⟩ ?_
    exact
      { location_eq := h.location_eq
        settings_eq := h.settings_eq
        rowNumber := h.rowNumber
        stage := .failed f hf hschema rfl hexposed }
  | last _ _ _ hdeferred hlookahead _ hexposed _ =>
    rw [hdeferred, hlookahead]
    refine .past ?_ rfl hfailed hw
    exact
      { location_eq := h.location_eq
        settings_eq := h.settings_eq
        rowNumber := h.rowNumber
        stage := .past hschema hfailed rfl hexposed rfl }
  | ahead row rest r _ _ _ hdeferred hlookahead hrows hr hsplit _ =>
    have hwidth : ∀ row ∈ rest, row.length = src.schema.length := by
      intro row' hm
      refine hsrc.width row' (List.mem_cons_of_mem _ ?_)
      rw [hsplit]
      exact List.mem_append_right _ (List.mem_cons_of_mem _ hm)
    have hsplit' : src.rows = exposed ++ [row] ++ rest := by
      rw [hsplit, List.append_assoc, List.singleton_append]
    have hnumber : c.rowNumber + 1 = (exposed ++ [row]).length := by
      rw [h.rowNumber, List.length_append, List.length_singleton]
    rw [hdeferred, hlookahead]
    simp only [readAhead, hrows]
    rcases hsrc.readRow hr hwidth hw with ⟨f, r', w', hread, hf⟩ | ⟨r', w', hread, hr', hw'⟩
    · rw [hread]
      refine .row row rfl ?_ fun hno => absurd ⟨f, hf⟩ hno
      exact
        { location_eq := h.location_eq
          settings_eq := h.settings_eq
          rowNumber := hnumber
          stage := .faulty f hf hschema hfailed hover rfl ⟨rest, hsplit'.symm⟩ }
    · rw [hread]
      refine .row row rfl ?_ fun _ => hw'
      exact
        { location_eq := h.location_eq
          settings_eq := h.settings_eq
          rowNumber := hnumber
          stage := .ofLookahead hschema hfailed hover rfl rfl rfl hr' hsplit'
            (by rw [List.getLast?_concat]) }

/-- Going on to the next row. It fails only where the token is cancelled, the file cannot be opened,
or a fault is expected. -/
theorem Along.next (hsrc : src.Backs store) (h : Along src exposed c) (hw : src.Calm w) :
    Moved src exposed
      (w.isCancelled c.interrupt = true ∨ (∃ e w', c.opened store w = (.error e, c, w')) ∨
        ∃ f, src.Expected f)
      (c.next store w).2.1 (c.next store w).2.2 (c.next store w).1 := by
  unfold Streamed.next
  split
  · rename_i e hfailed
    refine .failed _ (.inr (.inr ?_)) h
    cases h.stage with
    | failed f hf _ _ _ => exact ⟨f, hf⟩
    | closed _ hn => cases hn.symm.trans hfailed
    | ahead _ _ _ _ hn => cases hn.symm.trans hfailed
    | last _ hn => cases hn.symm.trans hfailed
    | faulty _ _ _ hn => cases hn.symm.trans hfailed
    | past _ hn => cases hn.symm.trans hfailed
  · rename_i hfailed
    split
    · rename_i hover
      exact .past h hover hfailed hw
    · rename_i hover
      rw [Bool.not_eq_true] at hover
      split
      · rename_i e hcheck
        refine .failed _ (.inl ?_) h
        unfold checkInterrupt at hcheck
        split at hcheck
        · assumption
        · cases hcheck
      · split
        · rename_i e c₁ w₁ ho
          obtain ⟨rfl, -⟩ := of_opened_error ho
          exact .failed _ (.inr (.inl ⟨e, w₁, ho⟩)) h
        · rename_i c₁ w₁ ho
          obtain ⟨h₁, hs₁, hf₁, ha₁, hw₁⟩ := hsrc.opened h hw ho
          exact (h₁.advance hsrc hs₁ (hf₁.trans hfailed) (ha₁.trans hover) hw₁).imp
            fun hr => .inr (.inr hr)

/-- Asking for the columns. -/
theorem Along.metadata (hsrc : src.Backs store) (h : Along src exposed c) (hw : src.Calm w) :
    Along src exposed (c.metadata store w).2.1 := by
  unfold Streamed.metadata
  split
  · exact h
  · split
    · exact h
    · split
      · rename_i ho
        exact (of_opened_error ho).1 ▸ h
      · rename_i c₁ w₁ ho
        exact (hsrc.opened h hw ho).1

/-- The interrupt has nothing to do with the stage. -/
theorem Along.withInterrupt (h : Along src exposed c) (interrupt : Token) :
    Along src exposed { c with interrupt } where
  location_eq := h.location_eq
  settings_eq := h.settings_eq
  rowNumber := h.rowNumber
  stage := by
    cases h.stage with
    | closed h₁ h₂ h₃ h₄ h₅ h₆ => exact .closed h₁ h₂ h₃ h₄ h₅ h₆
    | ahead row rest r h₁ h₂ h₃ h₄ h₅ h₆ h₇ h₈ h₉ =>
      exact .ahead row rest r h₁ h₂ h₃ h₄ h₅ h₆ h₇ h₈ h₉
    | last h₁ h₂ h₃ h₄ h₅ h₆ h₇ h₈ => exact .last h₁ h₂ h₃ h₄ h₅ h₆ h₇ h₈
    | faulty f h₁ h₂ h₃ h₄ h₅ h₆ => exact .faulty f h₁ h₂ h₃ h₄ h₅ h₆
    | failed f h₁ h₂ h₃ h₄ => exact .failed f h₁ h₂ h₃ h₄
    | past h₁ h₂ h₃ h₄ h₅ => exact .past h₁ h₂ h₃ h₄ h₅

/-- A cursor that was not used yet. -/
theorem Along.fresh (interrupt : Token) :
    Along src [] { location := src.location, settings := src.settings, interrupt } where
  location_eq := rfl
  settings_eq := rfl
  rowNumber := rfl
  stage := .closed rfl rfl rfl rfl rfl rfl

end QueryResults.Cursor.Streamed
