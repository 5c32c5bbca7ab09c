import QueryResults.Proofs.Streamed.Stage

/-!
# Draining a result file

Where no fault is expected and nobody interrupts it, a cursor over a result file never fails: the
sidecar is loaded, every row is read, and the end is found. So every call goes as it should, and
after every step to a row the position tells whether it is the last.

## Main definitions

* `Source.Sure`: when a store lets a file be read without failing.
* `Streamed.Draining`: a cursor that is drained, with the rows still to come.

## Main results

* `Draining.metadata`, `Draining.row`, `Draining.past`: what each call comes to.
-/

namespace QueryResults.Cursor.Streamed

variable {σ : Type} {store : Store (World σ)}

/-! ### The token -/

section Interrupt

variable {c c' : Streamed} {w w' : World σ}

theorem interrupt_opened (ho : c.opened store w = (.ok (), c', w')) :
    c'.interrupt = c.interrupt := by
  unfold opened at ho
  split at ho
  · cases ho
    rfl
  · split at ho
    · cases ho
    · split at ho
      · cases ho
      · unfold openFile at ho
        simp only at ho
        split at ho
        · cases ho
        · split at ho
          · cases ho
          · cases ho
            rfl

theorem interrupt_advance (store : Store (World σ)) (c : Streamed) (w : World σ) :
    (c.advance store w).2.1.interrupt = c.interrupt := by
  unfold advance
  split
  · rfl
  · simp only [readAhead]
    split
    · rfl
    · split <;> rfl
  · rfl

theorem interrupt_next (store : Store (World σ)) (c : Streamed) (w : World σ) :
    (c.next store w).2.1.interrupt = c.interrupt := by
  unfold next
  split
  · rfl
  · split
    · rfl
    · split
      · rfl
      · split
        · rename_i ho
          exact congrArg Streamed.interrupt (of_opened_error ho).1
        · rename_i c₁ w₁ ho
          exact (interrupt_advance store c₁ w₁).trans (interrupt_opened ho)

end Interrupt

/-! ### Files that are read without failing -/

/-- When a store lets a file be read without failing: no fault is expected, the token is not
cancelled in a calm world, and the sidecar is loaded. -/
structure Source.Sure (src : Source σ) (token : Token) (store : Store (World σ)) : Prop where
  backs : src.Backs store
  expected : ∀ f, ¬src.Expected f
  calm : ∀ w, src.Calm w → w.isCancelled token = false
  loads : ∀ {c : Streamed} {w : World σ}, c.location = src.location → c.settings = src.settings →
    c.interrupt = token → src.Calm w → ∃ bytes w', c.loadSidecar store w = (.ok bytes, w')

variable {src : Source σ} {token : Token} {exposed : List Row} {c : Streamed} {w : World σ}

/-- Opening the cursor succeeds. -/
theorem Source.Sure.opened (hsrc : src.Sure token store) (h : Along src exposed c)
    (htoken : c.interrupt = token) (hw : src.Calm w) :
    ∃ c' w', c.opened store w = (.ok (), c', w') := by
  unfold Streamed.opened
  split
  · exact ⟨c, w, rfl⟩
  · rename_i hschema
    obtain ⟨bytes, w₁, hload⟩ := hsrc.loads h.location_eq h.settings_eq htoken hw
    obtain ⟨hparse, hw₁⟩ := hsrc.backs.sidecar h.location_eq h.settings_eq hw hload
    simp only [hload, hparse]
    obtain ⟨-, -, -, rfl, -⟩ := h.stage.of_schema_eq_none hschema
    rcases hsrc.backs.openFile h hschema hw₁ with ⟨e, w₂, f, he, hf⟩ | ⟨c₂, w₂, he, -⟩
    · exact absurd hf (hsrc.expected f)
    · exact ⟨c₂, w₂, he⟩

/-- The position on a row tells whether it is the last. -/
theorem Along.position_eq (hsrc : src.Sure token store) (h : Along src exposed c) {row : Row}
    {todo : List Row} (hcurrent : c.current = some row) (hsplit : src.rows = exposed ++ todo) :
    c.position = .of exposed.length false todo.isEmpty := by
  cases h.stage with
  | closed _ _ _ _ _ hnone => cases hcurrent.symm.trans hnone
  | faulty f hf => exact absurd hf (hsrc.expected f)
  | failed f hf => exact absurd hf (hsrc.expected f)
  | past _ _ _ _ hnone => cases hcurrent.symm.trans hnone
  | ahead row' rest r _ hfailed hover hdeferred hlookahead hrows _ hsplit' _ =>
    obtain rfl : todo = row' :: rest := List.append_cancel_left (hsplit.symm.trans hsplit')
    simp [position, hfailed, hover, hlookahead, h.rowNumber]
  | last _ hfailed hover hdeferred hlookahead hrows hexposed _ =>
    obtain rfl : todo = [] := by
      rw [hexposed] at hsplit
      exact List.append_cancel_left (hsplit.symm.trans (List.append_nil _).symm)
    simp [position, hfailed, hover, hlookahead, hrows, hdeferred, h.rowNumber]

/-! ### Draining -/

/-- A cursor that has exposed `n` rows and has the rows `todo` still to come. -/
structure Draining (src : Source σ) (token : Token) (n : Nat) (todo : List Row) (c : Streamed)
    (w : World σ) : Prop where
  along : ∃ exposed, Along src exposed c ∧ exposed.length = n ∧ src.rows = exposed ++ todo
  interrupt : c.interrupt = token
  calm : src.Calm w

namespace Draining

variable {n : Nat} {todo : List Row}

/-- Asking for the columns gives the columns of the file. -/
theorem metadata (hsrc : src.Sure token store) (h : Draining src token n todo c w) :
    ∃ c' w', c.metadata store w = (.ok src.schema, c', w') ∧ Draining src token n todo c' w' := by
  obtain ⟨exposed, halong, hn, hsplit⟩ := h.along
  obtain ⟨c', w', ho⟩ := hsrc.opened halong h.interrupt h.calm
  obtain ⟨halong', hschema, -, -, hw'⟩ := hsrc.backs.opened halong h.calm ho
  have hinterrupt := (interrupt_opened ho).trans h.interrupt
  refine ⟨c', w', ?_, ⟨exposed, halong', hn, hsplit⟩, hinterrupt, hw'⟩
  unfold Streamed.metadata
  cases hs : c.schema with
  | some columns =>
    rw [opened, hs] at ho
    cases ho
    rw [hschema] at hs
    cases hs
    rfl
  | none =>
    have hcancelled : w.isCancelled c.interrupt = false := h.interrupt ▸ hsrc.calm w h.calm
    simp only [checkInterrupt, hcancelled, Bool.false_eq_true, ↓reduceIte, ho, hschema]

/-- Where nothing can go wrong there is no reason to fail. -/
theorem no_reason (hsrc : src.Sure token store) (h : Draining src token n todo c w)
    (halong : Along src exposed c) :
    ¬(w.isCancelled c.interrupt = true ∨ (∃ e w', c.opened store w = (.error e, c, w')) ∨
      ∃ f, src.Expected f) := by
  rintro (hc | ⟨e, w', ho⟩ | ⟨f, hf⟩)
  · rw [h.interrupt, hsrc.calm w h.calm] at hc
    cases hc
  · obtain ⟨c', w', ho'⟩ := hsrc.opened halong h.interrupt h.calm
    cases ho.symm.trans ho'
  · exact hsrc.expected f hf

/-- Going on to the next row, while there is one. -/
theorem row {row : Row} (hsrc : src.Sure token store) (h : Draining src token n (row :: todo) c w) :
    ∃ c' w', c.next store w = (.ok true, c', w') ∧ c'.current = some row ∧ c'.rowNumber = n + 1 ∧
      c'.position = .of (n + 1) false todo.isEmpty ∧ Draining src token (n + 1) todo c' w' := by
  obtain ⟨exposed, halong, rfl, hsplit⟩ := h.along
  have hmoved := halong.next hsrc.backs h.calm
  have hinterrupt := (interrupt_next store c w).trans h.interrupt
  have hno := h.no_reason hsrc halong
  generalize c.next store w = x at hmoved hinterrupt
  obtain ⟨r, c', w'⟩ := x
  cases hmoved with
  | failed e hr => exact absurd hr hno
  | past halong' ha hf =>
    obtain ⟨hall, -⟩ := halong'.stage.of_afterLast ha hf
    have := congrArg List.length (hall.trans hsplit)
    simp at this
  | row row' hcurrent halong' hw' =>
    obtain ⟨rest, hrest⟩ := halong'.exposed_prefix
    have hcons : exposed ++ row' :: rest = exposed ++ row :: todo := by
      rw [← hsplit, ← hrest, List.append_assoc, List.singleton_append]
    obtain ⟨rfl, rfl⟩ := List.cons.inj (List.append_cancel_left hcons)
    have hlength : (exposed ++ [row']).length = exposed.length + 1 := by simp
    have hposition := halong'.position_eq hsrc hcurrent hrest.symm
    rw [hlength] at hposition
    exact ⟨c', w', rfl, hcurrent, halong'.rowNumber.trans hlength, hposition,
      ⟨_, halong', hlength, hrest.symm⟩, hinterrupt, hw' hno⟩

/-- Going on to the next row, when there is none. -/
theorem past (hsrc : src.Sure token store) (h : Draining src token n [] c w) :
    ∃ c' w', c.next store w = (.ok false, c', w') ∧ c'.current = none ∧ c'.rowNumber = n ∧
      c'.position = .afterLast ∧ Draining src token n [] c' w' := by
  obtain ⟨exposed, halong, rfl, hsplit⟩ := h.along
  have hmoved := halong.next hsrc.backs h.calm
  have hinterrupt := (interrupt_next store c w).trans h.interrupt
  have hno := h.no_reason hsrc halong
  generalize c.next store w = x at hmoved hinterrupt
  obtain ⟨r, c', w'⟩ := x
  cases hmoved with
  | failed e hr => exact absurd hr hno
  | row row' hcurrent halong' hw' =>
    have hle := halong'.exposed_prefix.length_le
    rw [hsplit, List.length_append, List.length_append, List.length_singleton,
      List.length_nil] at hle
    omega
  | past halong' ha hf hw' =>
    simp only at ha hf
    obtain ⟨-, hcurrent⟩ := halong'.stage.of_afterLast ha hf
    have hposition : c'.position = .afterLast := by
      rw [position, hf, ha]
      rfl
    exact ⟨c', w', rfl, hcurrent, halong'.rowNumber, hposition, ⟨_, halong', rfl, hsplit⟩,
      hinterrupt, hw'⟩

/-- A cursor that was not used yet. -/
theorem fresh (hw : src.Calm w) :
    Draining src token 0 src.rows
      { location := src.location, settings := src.settings, interrupt := token } w where
  along := ⟨[], .fresh token, rfl, rfl⟩
  interrupt := rfl
  calm := hw

end Draining

end QueryResults.Cursor.Streamed
