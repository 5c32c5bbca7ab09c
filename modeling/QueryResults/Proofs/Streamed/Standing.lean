import QueryResults.Proofs.Cursor.Calls
import QueryResults.Cursor.Streamed

/-!
# Where a cursor over a result file stands

A cursor over a result file passes through phases, whatever its store does. It is closed; it is open
and one row ahead; it has met a failure while it read ahead, which the next step reports; it has
failed; or it is past the end. Only a cursor that is open and has read the end of the file takes its
row for the last, so it never leaves the last row but for the end.

## Main definitions

* `Streamed.Phase`, `Streamed.standing`.
* `Streamed.Stepped`: what going on to the next row does to a cursor.

## Main results

* `Phase.opened`, `Phase.advance`, `Phase.next`, `Phase.metadata`: every call keeps to the phases.
* `Phase.leads_metadata`, `Phase.leads_next`: calls lead from one standing to another.
-/

namespace QueryResults.Cursor.Streamed

variable {σ : Type} {store : Store (World σ)} {c c' : Streamed} {w w' : World σ}

/-! ### Phases -/

/-- The phase that a cursor is in between any two calls. -/
inductive Phase (c : Streamed) : Prop
  | closed (hschema : c.schema = none) (hrows : c.rows = none) (hdeferred : c.deferred = none)
      (hfailed : c.failed = none) (hpast : c.afterLast = false) (hcurrent : c.current = none)
  | reading (hschema : c.schema.isSome = true) (hrows : c.rows.isSome = true)
      (hdeferred : c.deferred = none) (hfailed : c.failed = none) (hpast : c.afterLast = false)
      (hcurrent : c.rowNumber = 0 → c.current = none)
  | broken (e : Failure) (hschema : c.schema.isSome = true) (hlookahead : c.lookahead = none)
      (hdeferred : c.deferred = some e) (hfailed : c.failed = none) (hpast : c.afterLast = false)
      (hnumber : 0 < c.rowNumber)
  | failed (e : Failure) (hschema : c.schema.isSome = true) (hrows : c.rows = none)
      (hdeferred : c.deferred = none) (hfailed : c.failed = some e) (hpast : c.afterLast = false)
      (hcurrent : c.current = none) (hnumber : 0 < c.rowNumber)
  | past (hschema : c.schema.isSome = true) (hdeferred : c.deferred = none)
      (hfailed : c.failed = none) (hpast : c.afterLast = true) (hcurrent : c.current = none)

/-- A cursor that was not used yet. -/
theorem Phase.fresh (location : Location) (settings : Settings.Download) (interrupt : Token) :
    Phase { location, settings, interrupt } :=
  .closed rfl rfl rfl rfl rfl rfl

/-- The interrupt has nothing to do with the phase. -/
theorem Phase.withInterrupt (h : Phase c) (interrupt : Token) : Phase { c with interrupt } := by
  cases h with
  | closed h₁ h₂ h₃ h₄ h₅ h₆ => exact .closed h₁ h₂ h₃ h₄ h₅ h₆
  | reading h₁ h₂ h₃ h₄ h₅ h₆ => exact .reading h₁ h₂ h₃ h₄ h₅ h₆
  | broken e h₁ h₂ h₃ h₄ h₅ h₆ => exact .broken e h₁ h₂ h₃ h₄ h₅ h₆
  | failed e h₁ h₂ h₃ h₄ h₅ h₆ h₇ => exact .failed e h₁ h₂ h₃ h₄ h₅ h₆ h₇
  | past h₁ h₂ h₃ h₄ h₅ => exact .past h₁ h₂ h₃ h₄ h₅

/-- Before the first row and past the last no row is current. -/
theorem Phase.current_eq_none (h : Phase c) (hc : c.rowNumber = 0 ∨ c.afterLast = true) :
    c.current = none := by
  cases h with
  | closed _ _ _ _ _ hcurrent => exact hcurrent
  | reading _ _ _ _ hpast hcurrent => exact hcurrent (hc.resolve_right (by simp [hpast]))
  | broken _ _ _ _ _ hpast hnumber => exact absurd hc (by simp [hpast]; omega)
  | failed _ _ _ _ _ _ hcurrent _ => exact hcurrent
  | past _ _ _ _ hcurrent => exact hcurrent

/-- A cursor past the end holds no failure. -/
theorem Phase.of_afterLast (h : Phase c) (hc : c.afterLast = true) :
    c.deferred = none ∧ c.failed = none := by
  cases h with
  | closed _ _ hdeferred hfailed => exact ⟨hdeferred, hfailed⟩
  | reading _ _ hdeferred hfailed => exact ⟨hdeferred, hfailed⟩
  | broken _ _ _ _ _ hpast => cases hpast.symm.trans hc
  | failed _ _ _ _ _ hpast => cases hpast.symm.trans hc
  | past _ hdeferred hfailed => exact ⟨hdeferred, hfailed⟩

/-! ### Opening and reading ahead -/

/-- A cursor that is open stays as it is; another is opened one row ahead. -/
theorem opened_cases (h : c.opened store w = (.ok (), c', w')) :
    (c' = c ∧ w' = w ∧ c.schema.isSome = true) ∨
      c.schema = none ∧ ∃ columns rows lookahead,
        c' = { c with lookahead, schema := some columns, rows := some rows } := by
  unfold opened at h
  split at h
  · rename_i hs
    cases h
    exact .inl ⟨rfl, rfl, by rw [hs]; rfl⟩
  · rename_i hs
    split at h
    · cases h
    · split at h
      · cases h
      · rename_i columns _
        unfold openFile at h
        simp only at h
        split at h
        · cases h
        · split at h
          · cases h
          · rename_i lookahead rows _ _
            cases h
            exact .inr ⟨hs, columns, rows, lookahead, rfl⟩

/-- A cursor is refused to go on only by its token. -/
theorem cancelled_of_checkInterrupt {e : Failure} (h : c.checkInterrupt w = .error e) :
    w.isCancelled c.interrupt = true ∧ e.kind = .interrupted := by
  unfold checkInterrupt at h
  split at h
  · rename_i hw
    cases h
    exact ⟨hw, rfl⟩
  · cases h

theorem uncancelled_of_checkInterrupt (h : c.checkInterrupt w = .ok ()) :
    w.isCancelled c.interrupt = false := by
  unfold checkInterrupt at h
  split at h
  · cases h
  · exact Bool.not_eq_true _ ▸ ‹_›

/-- Reading ahead finds a row or the end, or it meets a failure that is kept for the next step. -/
theorem readAhead_cases {rows : Csv.Reader Download.Reader} (hrows : c.rows = some rows)
    (h : c.readAhead store w = (c', w')) :
    (∃ lookahead rows', readRow store rows w = (.ok lookahead, rows', w') ∧
        c' = { c with rows := some rows', lookahead }) ∨
      ∃ e rows', readRow store rows w = (.error e, rows', w') ∧
        c' = { c with rows := some rows', deferred := some e } := by
  simp only [readAhead, hrows] at h
  split at h
  · rename_i hread
    cases h
    exact .inl ⟨_, _, hread, rfl⟩
  · rename_i hread
    cases h
    exact .inr ⟨_, _, hread, rfl⟩

/-- A cursor whose columns are not known was not opened. -/
theorem Phase.closed_of_schema (h : Phase c) (hs : c.schema = none) :
    c.rows = none ∧ c.deferred = none ∧ c.failed = none ∧ c.afterLast = false ∧
      c.current = none := by
  have known (hs' : c.schema.isSome = true) : False := by
    rw [hs] at hs'
    cases hs'
  cases h with
  | closed _ hrows hdeferred hfailed hpast hcurrent =>
    exact ⟨hrows, hdeferred, hfailed, hpast, hcurrent⟩
  | reading hs' => exact (known hs').elim
  | broken _ hs' => exact (known hs').elim
  | failed _ hs' => exact (known hs').elim
  | past hs' => exact (known hs').elim

/-- Opening changes neither what was reported nor the columns once known. -/
theorem frame_of_opened (ho : c.opened store w = (.ok (), c', w')) :
    (c'.failed = c.failed ∧ c'.afterLast = c.afterLast ∧ c'.rowNumber = c.rowNumber) ∧
      ∀ columns, c.schema = some columns → c'.schema = some columns := by
  rcases opened_cases ho with ⟨rfl, -, -⟩ | ⟨hs, columns, rows, lookahead, rfl⟩
  · exact ⟨⟨rfl, rfl, rfl⟩, fun _ => id⟩
  · exact ⟨⟨rfl, rfl, rfl⟩, fun columns hc => nomatch hs.symm.trans hc⟩

/-- Opening keeps to the phases. -/
theorem Phase.opened (h : Phase c) (ho : c.opened store w = (.ok (), c', w')) :
    Phase c' ∧ c'.schema.isSome = true := by
  rcases opened_cases ho with ⟨rfl, -, hs⟩ | ⟨hs, columns, rows, lookahead, rfl⟩
  · exact ⟨h, hs⟩
  · obtain ⟨-, hdeferred, hfailed, hpast, hcurrent⟩ := h.closed_of_schema hs
    exact ⟨.reading rfl rfl hdeferred hfailed hpast fun _ => hcurrent, rfl⟩

/-! ### Steps -/

/-- What can be told of a cursor over a result file. -/
def standing (c : Streamed) : Standing where
  rowNumber := c.rowNumber
  current := c.current
  afterLast := c.afterLast
  isLast := c.rows.isSome && c.lookahead.isNone && c.deferred.isNone
  schema := c.schema

/-- A failure takes nothing from the position that the standing tells. -/
theorem Phase.position_eq (h : Phase c) : c.position = c.standing.position := by
  cases h with
  | failed e _ hrows _ hfailed hpast =>
    simp [position, Standing.position, standing, hfailed, hpast, hrows]
  | closed _ _ _ hfailed => simp [position, Standing.position, standing, hfailed]
  | reading _ _ _ hfailed => simp [position, Standing.position, standing, hfailed]
  | broken _ _ _ _ hfailed => simp [position, Standing.position, standing, hfailed]
  | past _ _ hfailed => simp [position, Standing.position, standing, hfailed]

/-- The cursor on the row that was read ahead. -/
def onto (c : Streamed) (row : Row) : Streamed :=
  { c with current := some row, lookahead := none, rowNumber := c.rowNumber + 1 }

/-- What a step of a cursor does, with each answer. -/
inductive Stepped (store : Store (World σ)) (c : Streamed) (w : World σ) :
    Except Failure Bool → Streamed → World σ → Prop
  /-- The cursor is on the row that was read ahead, and is one row ahead again. -/
  | row {c₁ c' : Streamed} {w₁ w' : World σ} (row : Row) (hfailed : c.failed = none)
      (hpast : c.afterLast = false) (hlast : c.standing.isLast = false)
      (hopened : c.opened store w = (.ok (), c₁, w₁)) (hlookahead : c₁.lookahead = some row)
      (hahead : (c₁.onto row).readAhead store w₁ = (c', w')) : Stepped store c w (.ok true) c' w'
  | past {c' : Streamed} {w' : World σ} (hnumber : c'.rowNumber = c.rowNumber)
      (hpast : c'.afterLast = true) : Stepped store c w (.ok false) c' w'
  /-- A cursor that has failed fails again. -/
  | again (e : Failure) (hfailed : c.failed = some e) : Stepped store c w (.error e.repeated) c w
  | interrupted (e : Failure) (hw : w.isCancelled c.interrupt = true)
      (he : e.kind = .interrupted) : Stepped store c w (.error e) c w
  /-- The cursor could not be opened, which is tried again. -/
  | unopened (e : Failure) {w' : World σ} (hschema : c.schema = none) :
      Stepped store c w (.error e) c w'
  /-- The failure met while reading ahead is reported. -/
  | reported (e : Failure) (hw : w.isCancelled c.interrupt = false)
      (hdeferred : c.deferred = some e) : Stepped store c w (.error e) (c.fail e) w

/-- Where reading ahead leads from a row. -/
theorem frame_of_readAhead (h : c.readAhead store w = (c', w')) :
    c'.rowNumber = c.rowNumber ∧ c'.current = c.current ∧ c'.schema = c.schema ∧
      c'.afterLast = c.afterLast ∧ c'.failed = c.failed ∧ c'.interrupt = c.interrupt := by
  cases hrows : c.rows with
  | none =>
    simp only [readAhead, hrows] at h
    cases h
    exact ⟨rfl, rfl, rfl, rfl, rfl, rfl⟩
  | some rows =>
    rcases readAhead_cases hrows h with ⟨lookahead, rows', -, rfl⟩ | ⟨e, rows', -, rfl⟩
    · exact ⟨rfl, rfl, rfl, rfl, rfl, rfl⟩
    · exact ⟨rfl, rfl, rfl, rfl, rfl, rfl⟩

/-- Reading ahead from a row keeps to the phases. -/
theorem Phase.onto {row : Row} (hschema : c.schema.isSome = true) (hrows : c.rows.isSome = true)
    (hdeferred : c.deferred = none) (hfailed : c.failed = none) (hpast : c.afterLast = false)
    (h : (c.onto row).readAhead store w = (c', w')) : Phase c' := by
  obtain ⟨rows, hrows⟩ := Option.isSome_iff_exists.1 hrows
  rcases readAhead_cases (by exact hrows) h with
    ⟨lookahead, rows', -, rfl⟩ | ⟨e, rows', -, rfl⟩
  · exact .reading hschema rfl hdeferred hfailed hpast nofun
  · exact .broken e hschema rfl rfl hfailed hpast (Nat.succ_pos _)

/-- What going on from an open cursor does, with each answer. -/
inductive Advanced (store : Store (World σ)) (c : Streamed) (w : World σ) :
    Except Failure Bool → Streamed → World σ → Prop
  | row {c' : Streamed} {w' : World σ} (row : Row) (hlookahead : c.lookahead = some row)
      (hahead : (c.onto row).readAhead store w = (c', w')) : Advanced store c w (.ok true) c' w'
  | past {c' : Streamed} (hnumber : c'.rowNumber = c.rowNumber) (hpast : c'.afterLast = true) :
      Advanced store c w (.ok false) c' w
  | reported (e : Failure) (hdeferred : c.deferred = some e) :
      Advanced store c w (.error e) (c.fail e) w

/-- Going on from an open cursor keeps to the phases. -/
theorem Phase.advance {r : Except Failure Bool} (h : Phase c) (hschema : c.schema.isSome = true)
    (hfailed : c.failed = none) (hpast : c.afterLast = false)
    (ha : c.advance store w = (r, c', w')) :
    Phase c' ∧ Advanced store c w r c' w' ∧ c'.schema = c.schema := by
  cases h with
  | closed hs => simp [hs] at hschema
  | failed _ _ _ _ hf => cases hf.symm.trans hfailed
  | past _ _ _ hp => cases hp.symm.trans hpast
  | broken e _ hlookahead hdeferred _ _ hnumber =>
    simp only [Streamed.advance, hdeferred] at ha
    cases ha
    exact ⟨.failed _ hschema rfl rfl rfl hpast rfl hnumber, .reported e hdeferred, rfl⟩
  | reading _ hrows hdeferred _ _ _ =>
    cases hlookahead : c.lookahead with
    | none =>
      simp only [Streamed.advance, hdeferred, hlookahead] at ha
      cases ha
      exact ⟨.past hschema rfl hfailed rfl rfl, .past rfl rfl, rfl⟩
    | some row =>
      have hahead : (c.onto row).readAhead store w = (c', w') ∧ r = .ok true := by
        unfold Streamed.advance at ha
        rw [hdeferred, hlookahead] at ha
        simp only [Prod.mk.injEq] at ha
        exact ⟨by simp only [Streamed.onto, hdeferred]; exact Prod.ext ha.2.1 ha.2.2, ha.1.symm⟩
      obtain ⟨hahead, rfl⟩ := hahead
      exact ⟨.onto hschema hrows hdeferred hfailed hpast hahead, .row row hlookahead hahead,
        (frame_of_readAhead hahead).2.2.1⟩

/-- Every step keeps to the phases, and the columns once known stay. -/
theorem Phase.next {r : Except Failure Bool} (h : Phase c) (hn : c.next store w = (r, c', w')) :
    Phase c' ∧ Stepped store c w r c' w' ∧
      ∀ columns, c.schema = some columns → c'.schema = some columns := by
  unfold Streamed.next at hn
  split at hn
  · rename_i e hfailed
    cases hn
    exact ⟨h, .again e hfailed, fun _ => id⟩
  · rename_i hfailed
    split at hn
    · rename_i hpast
      cases hn
      exact ⟨h, .past rfl hpast, fun _ => id⟩
    · rename_i hpast
      rw [Bool.not_eq_true] at hpast
      split at hn
      · rename_i e hcheck
        cases hn
        obtain ⟨hw, he⟩ := cancelled_of_checkInterrupt hcheck
        exact ⟨h, .interrupted e hw he, fun _ => id⟩
      · rename_i hcheck
        split at hn
        · rename_i e c₁ w₁ ho
          cases hn
          obtain ⟨rfl, hs⟩ := of_opened_error ho
          exact ⟨h, .unopened e hs, fun _ => id⟩
        · rename_i c₁ w₁ ho
          obtain ⟨h₁, hs₁⟩ := h.opened ho
          obtain ⟨⟨hfailed₁, hpast₁, hnumber₁⟩, hcolumns⟩ := frame_of_opened ho
          obtain ⟨h', hadvanced, hs'⟩ :=
            h₁.advance hs₁ (hfailed₁.trans hfailed) (hpast₁.trans hpast) hn
          refine ⟨h', ?_, fun columns hc => hs'.trans (hcolumns columns hc)⟩
          cases hadvanced with
          | row row hlookahead hahead =>
            refine .row row hfailed hpast ?_ ho hlookahead hahead
            rcases opened_cases ho with ⟨rfl, -, -⟩ | ⟨hs, -⟩
            · simp [standing, hlookahead]
            · simp [standing, (h.closed_of_schema hs).1]
          | past hnumber hpast' => exact .past (hnumber.trans hnumber₁) hpast'
          | reported e hdeferred =>
            rcases opened_cases ho with ⟨rfl, rfl, -⟩ | ⟨hs, columns, rows, lookahead, rfl⟩
            · exact .reported e (uncancelled_of_checkInterrupt hcheck) hdeferred
            · cases (h.closed_of_schema hs).2.1.symm.trans hdeferred

/-- Asking for the columns opens a cursor at most. -/
theorem metadata_cases {r : Except Failure Schema} (hm : c.metadata store w = (r, c', w')) :
    (c' = c ∨ c.opened store w = (.ok (), c', w')) ∧
      ∀ columns, r = .ok columns → c'.schema = some columns := by
  unfold Streamed.metadata at hm
  split at hm
  · rename_i hs
    cases hm
    exact ⟨.inl rfl, by rintro _ ⟨⟩; exact hs⟩
  · split at hm
    · cases hm
      exact ⟨.inl rfl, nofun⟩
    · split at hm
      · rename_i ho
        cases hm
        exact ⟨.inl (of_opened_error ho).1, nofun⟩
      · rename_i ho
        cases hm
        refine ⟨.inr ho, fun columns hr => ?_⟩
        split at hr
        · rename_i hs
          cases hr
          exact hs
        · cases hr

theorem Phase.metadata {r : Except Failure Schema} (h : Phase c)
    (hm : c.metadata store w = (r, c', w')) : Phase c' := by
  rcases (metadata_cases hm).1 with rfl | ho
  · exact h
  · exact (h.opened ho).1

/-- Setting a page size leaves the cursor as it is. -/
theorem happen_setPageSize {connections : Connections σ} {n : Nat} {l : List Answer} {s : Cursor}
    (h : (streamed c).happen connections w (.called (.setPageSize n)) = some (l, s, w')) :
    ∃ r, l = [.resized r] ∧ s = streamed c := by
  cases hn : checkPageSize n with
  | error e | ok u =>
    simp only [Cursor.happen, Cursor.call, Cursor.setPageSize, setPageSize, hn, Except.map,
      Option.map_some] at h
    cases h
    exact ⟨_, rfl, rfl⟩

/-! ### Standings -/

theorem Phase.leads_next {r : Except Failure Bool} (h : Phase c)
    (hn : c.next store w = (r, c', w')) : c.standing.Leads (.moved r) c'.standing := by
  obtain ⟨-, hstep, hschema⟩ := h.next hn
  have stays (e : Failure) : c.standing.Leads (.moved (.error e)) c.standing :=
    { rowNumber := rfl
      afterLast := id
      isLast := .inl
      schema := fun _ => id
      answered := nofun
      ended := nofun }
  cases hstep with
  | row row hfailed hpast hlast ho hlookahead hahead =>
    obtain ⟨⟨-, -, hnumber₁⟩, -⟩ := frame_of_opened ho
    obtain ⟨hnumber, -⟩ := frame_of_readAhead hahead
    exact
      { rowNumber := hnumber.trans (congrArg (· + 1) hnumber₁)
        afterLast := fun h => nomatch hpast.symm.trans h
        isLast := fun h => nomatch hlast.symm.trans h
        schema := hschema
        answered := nofun
        ended := nofun }
  | past hnumber hpast =>
    exact
      { rowNumber := hnumber
        afterLast := fun _ => hpast
        isLast := fun _ => .inr hpast
        schema := hschema
        answered := nofun
        ended := fun _ => hpast }
  | again e hfailed => exact stays _
  | interrupted e hw he => exact stays e
  | unopened e hs => exact stays e
  | reported e hw hdeferred =>
    have hlast : c.standing.isLast = false := by simp [standing, hdeferred]
    exact
      { rowNumber := rfl
        afterLast := id
        isLast := fun h => nomatch hlast.symm.trans h
        schema := hschema
        answered := nofun
        ended := nofun }

theorem Phase.leads_metadata {r : Except Failure Schema} (h : Phase c)
    (hm : c.metadata store w = (r, c', w')) : c.standing.Leads (.columns r) c'.standing := by
  obtain ⟨hc, hanswered⟩ := metadata_cases hm
  have hanswered (columns : Schema) (he : Answer.columns r = .columns (.ok columns)) :
      c'.schema = some columns := hanswered columns (Answer.columns.inj he)
  rcases hc with rfl | ho
  · exact
      { rowNumber := rfl
        afterLast := id
        isLast := .inl
        schema := fun _ => id
        answered := hanswered
        ended := nofun }
  · rcases opened_cases ho with ⟨rfl, -, -⟩ | ⟨hs, columns, rows, lookahead, rfl⟩
    · exact
        { rowNumber := rfl
          afterLast := id
          isLast := .inl
          schema := fun _ => id
          answered := hanswered
          ended := nofun }
    · obtain ⟨hrows, -⟩ := h.closed_of_schema hs
      exact
        { rowNumber := rfl
          afterLast := id
          isLast := by simp [standing, hrows]
          schema := fun columns hc => nomatch hs.symm.trans hc
          answered := hanswered
          ended := nofun }

end QueryResults.Cursor.Streamed
