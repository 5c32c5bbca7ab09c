import QueryResults.Proofs.Paged.Journal
import QueryResults.Proofs.Paged.Standing
import QueryResults.Proofs.Streamed.Standing

/-!
# The contract of a cursor

A cursor over pages and a cursor over a result file keep their rows in different places, ask
different services and fail in different ways. To their callers they keep one contract, whatever the
services do and in whatever order they are called: positions never go back, rows are counted, the
end and the columns stay as they were answered, and a step that is interrupted changes nothing.

Both kinds are told by their standing, and every call leads from one standing to another, so the
contract is drawn from what a call leads to by one induction over runs.

## Main definitions

* `Cursor.IsUnused`: cursors that were not called yet.
* `Cursor.Sound`, `Cursor.Answered`: what holds of a cursor between two calls.
* `Cursor.Contract`: what a caller may rely on after a run.

## Main results

* `Cursor.Sound.call`: every call keeps a cursor sound and leads on.
* `Cursor.keeps_contract`: after every run the contract holds.
-/

namespace QueryResults.Cursor

variable {σ : Type} {connections : Connections σ} {c c₀ c' : Cursor} {w w₀ w' : World σ}
  {answers : List Answer}

/-! ### Cursors between calls -/

/-- A cursor that was not called yet. -/
inductive IsUnused : Cursor → Prop
  | paged (handle : Handle) (trigger : Paged.Trigger) (interrupt : Token) (pageSize : Nat)
      (timeout : Duration) :
      IsUnused (.paged { Paged.ofHandle handle trigger interrupt with pageSize, timeout })
  | streamed (location : Location) (settings : Settings.Download) (interrupt : Token) :
      IsUnused (.streamed { location, settings, interrupt })

/-- What holds of a cursor between two calls. -/
def Sound : Cursor → Prop
  | paged c => c.Coherent
  | streamed c => c.Phase

/-- What can be told of a cursor. -/
def standing : Cursor → Standing
  | paged c => c.standing
  | streamed c => c.standing

theorem IsUnused.sound (h : c.IsUnused) : c.Sound := by
  cases h with
  | paged handle trigger interrupt pageSize timeout => exact .ofHandle handle trigger interrupt _ _
  | streamed location settings interrupt => exact .fresh location settings interrupt

theorem IsUnused.rowNumber (h : c.IsUnused) : c.rowNumber = 0 := by
  cases h <;> rfl

/-- Only one kind of cursor has a page size to be set when it is opened. -/
theorem exists_of_setPageSize {n : Nat} (h : c.setPageSize n = .ok c') :
    c' = c ∨ ∃ p : Paged, c = paged p ∧ c' = paged { p with pageSize := n } := by
  cases c with
  | paged p =>
    cases hn : checkPageSize n with
    | error e => simp [setPageSize, Paged.setPageSize, hn, Except.map] at h
    | ok u =>
      simp only [setPageSize, Paged.setPageSize, hn, Except.map, Except.ok.injEq] at h
      exact .inr ⟨p, rfl, h.symm⟩
  | streamed c =>
    cases hn : checkPageSize n with
    | error e => simp [setPageSize, Streamed.setPageSize, hn, Except.map] at h
    | ok u =>
      simp only [setPageSize, Streamed.setPageSize, hn, Except.map, Except.ok.injEq] at h
      exact .inl h.symm

/-- Every cursor that is opened over the result of a query is one that was not called yet, and has
the token that it was opened with. -/
theorem isUnused_of_ofStatus {reading : Settings.Reading} {download : Settings.Download}
    {hasStore : Bool} {status : Execution.Status} {token : Token}
    (h : ofStatus reading download hasStore status token = .ok c) :
    c.IsUnused ∧ c.interrupt = token := by
  have pages (trigger : Paged.Trigger) (h : ofPages reading trigger status.handle token = .ok c) :
      c.IsUnused ∧ c.interrupt = token := by
    cases hn : checkPageSize reading.pageSize with
    | error e => simp [ofPages, Paged.setPageSize, hn, Except.map] at h
    | ok u =>
      simp only [ofPages, Paged.setPageSize, hn, Except.map, Except.ok.injEq] at h
      exact h ▸ ⟨.paged status.handle trigger token reading.pageSize reading.pageTimeout, rfl⟩
  unfold ofStatus at h
  split at h
  · cases h
  · split at h
    · exact pages _ h
    · exact pages _ h
    · unfold ofFile at h
      split at h
      · split at h
        · rename_i uri _
          cases hl : Location.parse uri with
          | error e => simp [Streamed.ofUri, hl, Except.map] at h
          | ok location =>
            simp only [Streamed.ofUri, hl, Except.map, Except.ok.injEq] at h
            exact h ▸ ⟨.streamed location download token, rfl⟩
        · cases h
      · cases h

namespace Sound

/-- The token has nothing to do with the standing. -/
theorem withInterrupt (h : c.Sound) (t : Token) :
    (c.withInterrupt t).Sound ∧ (c.withInterrupt t).standing = c.standing := by
  cases c with
  | paged c => exact ⟨Paged.Coherent.withSettings h c.pageSize t, rfl⟩
  | streamed c => exact ⟨Streamed.Phase.withInterrupt h t, rfl⟩

theorem setPageSize {n : Nat} (h : c.Sound) (hn : c.setPageSize n = .ok c') :
    c'.Sound ∧ c'.standing = c.standing := by
  rcases exists_of_setPageSize hn with rfl | ⟨p, rfl, rfl⟩
  · exact ⟨h, rfl⟩
  · exact ⟨Paged.Coherent.withSettings h n p.interrupt, rfl⟩

theorem position_eq (h : c.Sound) : c.position = c.standing.position := by
  cases c with
  | paged c => rfl
  | streamed c => exact Streamed.Phase.position_eq h

/-- Before the first row and past the last no row is current. -/
theorem current_eq_none (h : c.Sound) (hc : c.rowNumber = 0 ∨ c.standing.afterLast = true) :
    c.current = none := by
  cases c with
  | paged c => exact hc.elim h.unread fun hp => (h.past hp).2.1
  | streamed c => exact Streamed.Phase.current_eq_none h hc

/-- Every call keeps a cursor sound and leads from its standing to another. -/
theorem call {x : Call} {a : Answer} (h : c.Sound)
    (hx : c.call connections w x = some (a, c', w')) :
    c'.Sound ∧ c.standing.Leads a c'.standing := by
  have stays {a : Answer} (ha : a.isRow = false) (hcolumns : ∀ s, a ≠ .columns (.ok s))
      (hend : a ≠ .moved (.ok false)) (he : c'.standing = c.standing) :
      c.standing.Leads a c'.standing :=
    { rowNumber := by simp [he, ha]
      afterLast := by simp [he]
      isLast := fun h => .inl (he ▸ h)
      schema := by simp [he]
      answered := fun s hs => absurd hs (hcolumns s)
      ended := fun hs => absurd hs hend }
  cases x with
  | metadata =>
    cases c with
    | paged c =>
      cases hx
      exact ⟨(Paged.Coherent.metadata h rfl).1, Paged.Coherent.leads_metadata h rfl⟩
    | streamed c =>
      cases hx
      exact ⟨Streamed.Phase.metadata h rfl, Streamed.Phase.leads_metadata h rfl⟩
  | next pages =>
    obtain ⟨⟨r, c₁, w₁⟩, hn, he⟩ := Option.map_eq_some_iff.1 hx
    cases he
    cases c with
    | paged c =>
      obtain ⟨⟨r, c₁, w₁⟩, hn, he⟩ := Option.map_eq_some_iff.1 hn
      cases he
      exact ⟨(Paged.Coherent.next h hn).1, Paged.Coherent.leads_next h hn⟩
    | streamed c =>
      cases hn
      exact ⟨(Streamed.Phase.next h rfl).1, Streamed.Phase.leads_next h rfl⟩
  | setPageSize n =>
    simp only [Cursor.call] at hx
    split at hx
    · rename_i c₁ hn
      cases hx
      obtain ⟨h', he⟩ := h.setPageSize hn
      exact ⟨h', stays rfl (fun _ h => by cases h) (fun h => by cases h) he⟩
    · cases hx
      exact ⟨h, stays rfl (fun _ h => by cases h) (fun h => by cases h) rfl⟩
  | clearInterrupt =>
    cases c with
    | paged c =>
      cases hx
      exact ⟨(withInterrupt h _).1,
        stays rfl (fun _ h => by cases h) (fun h => by cases h) rfl⟩
    | streamed c =>
      cases hx
      exact ⟨(withInterrupt h _).1,
        stays rfl (fun _ h => by cases h) (fun h => by cases h) rfl⟩

/-- Past the end every step answers at once that there is no row. -/
theorem next_eq_of_afterLast (h : c.Sound) (hc : c.standing.afterLast = true)
    (connections : Connections σ) (pages : Nat) (w : World σ) :
    c.next connections pages w = some (.ok false, c, w) := by
  cases c with
  | paged c =>
    have hn : c.next connections.service pages w = some (.ok false, c, w) := by
      rw [Paged.next.eq_def]
      exact if_pos hc
    simp only [Cursor.next, hn, Option.map_some]
  | streamed c =>
    have hpast : c.afterLast = true := hc
    have hn : c.next connections.objects w = (.ok false, c, w) := by
      unfold Streamed.next
      rw [(Streamed.Phase.of_afterLast h hpast).2, hpast]
      rfl
    simp only [Cursor.next, hn]

/-- A step that fails while the token is cancelled leaves the cursor where it was. -/
theorem standing_eq_of_error {pages : Nat} {e : Failure} (h : c.Sound)
    (hn : c.next connections pages w = some (.error e, c', w'))
    (hw : w'.isCancelled c.interrupt = true) :
    c'.current = c.current ∧ c'.rowNumber = c.rowNumber ∧ c'.position = c.position := by
  cases c with
  | paged c =>
    obtain ⟨⟨r, c₁, w₁⟩, hn, he⟩ := Option.map_eq_some_iff.1 hn
    cases he
    cases (Paged.Coherent.next h hn).2.1 with
    | failed e hcurrent hnumber hover hlast hlast' =>
      refine ⟨hcurrent, hnumber, ?_⟩
      change Position.of c₁.rowNumber c₁.afterLast c₁.isLast = .of c.rowNumber c.afterLast c.isLast
      rw [hnumber, hover, hlast, hlast']
  | streamed c =>
    generalize hr : c.next connections.objects w = r at hn
    obtain ⟨r, c₁, w₁⟩ := r
    simp only [Cursor.next, hr] at hn
    cases hn
    cases (Streamed.Phase.next h hr).2.1 with
    | again e hfailed => exact ⟨rfl, rfl, rfl⟩
    | interrupted e hcancelled he => exact ⟨rfl, rfl, rfl⟩
    | unopened e hschema => exact ⟨rfl, rfl, rfl⟩
    | reported e hcancelled hdeferred => cases hcancelled.symm.trans hw

end Sound

/-- Columns that are known are answered at once. -/
theorem metadata_eq_of_schema {schema : Schema} (h : c.standing.schema = some schema)
    (connections : Connections σ) (w : World σ) :
    c.metadata connections w = (.ok schema, c, w) := by
  cases c with
  | paged c =>
    have hs : c.schema = some schema := h
    simp only [Cursor.metadata, Paged.metadata, hs]
  | streamed c =>
    have hs : c.schema = some schema := h
    simp only [Cursor.metadata, Streamed.metadata, hs]

/-! ### Runs -/

/-- What the answers given so far say about a cursor. -/
structure Answered (answers : List Answer) (c : Cursor) : Prop where
  sound : c.Sound
  rowNumber : c.rowNumber = answers.countP Answer.isRow
  ended : .moved (.ok false) ∈ answers → c.standing.afterLast = true
  columns : ∀ schema, .columns (.ok schema) ∈ answers → c.standing.schema = some schema

theorem rowNumber_eq (c : Cursor) : c.rowNumber = c.standing.rowNumber := by
  cases c <;> rfl

/-- What happens to a cursor is a call or leaves its standing as it is. -/
theorem Sound.happen {x : Happening σ} {l : List Answer} (h : c.Sound)
    (hx : c.happen connections w x = some (l, c', w')) :
    c'.Sound ∧
      (l = [] ∧ c'.standing = c.standing ∨ ∃ a, l = [a] ∧ c.standing.Leads a c'.standing) := by
  cases x with
  | called x =>
    obtain ⟨⟨a, c₁, w₁⟩, ha, he⟩ := Option.map_eq_some_iff.1 hx
    cases he
    exact ⟨(h.call ha).1, .inr ⟨a, rfl, (h.call ha).2⟩⟩
  | given t =>
    cases hx
    exact ⟨(h.withInterrupt t).1, .inl ⟨rfl, (h.withInterrupt t).2⟩⟩
  | meanwhile f =>
    cases hx
    exact ⟨h, .inl ⟨rfl, rfl⟩⟩

theorem Answered.happen {x : Happening σ} {l : List Answer} (h : Answered answers c)
    (hx : c.happen connections w x = some (l, c', w')) : Answered (answers ++ l) c' := by
  obtain ⟨h', ⟨rfl, he⟩ | ⟨a, rfl, hleads⟩⟩ := h.sound.happen hx
  · exact
      { sound := h'
        rowNumber := by
          rw [List.append_nil, rowNumber_eq, he, ← rowNumber_eq, h.rowNumber]
        ended := by rw [List.append_nil, he]; exact h.ended
        columns := by rw [List.append_nil, he]; exact h.columns }
  · exact
      { sound := h'
        rowNumber := by
          rw [rowNumber_eq, hleads.rowNumber, ← rowNumber_eq, h.rowNumber, List.countP_append,
            List.countP_singleton]
        ended := fun hm => by
          rcases List.mem_append.1 hm with hm | hm
          · exact hleads.afterLast (h.ended hm)
          · exact hleads.ended (List.mem_singleton.1 hm).symm
        columns := fun schema hm => by
          rcases List.mem_append.1 hm with hm | hm
          · exact hleads.schema schema (h.columns schema hm)
          · exact hleads.answered schema (List.mem_singleton.1 hm).symm }

theorem Answered.run {happenings : List (Happening σ)} {l : List Answer} (h : Answered answers c)
    (hrun : c.run connections happenings w = some (l, c', w')) : Answered (answers ++ l) c' :=
  run_induction (P := fun _ answers c _ => Answered answers c) [] answers
    (fun h hx => h.happen hx) h hrun

/-- No run leads to an earlier position. -/
theorem Sound.position_le {happenings : List (Happening σ)} {l : List Answer} (h : c.Sound)
    (hrun : c.run connections happenings w = some (l, c', w')) : c.position ≤ c'.position := by
  have hP := run_induction
    (P := fun _ _ c₁ _ => Sound c₁ ∧ c.standing.position.rank ≤ c₁.standing.position.rank)
    [] [] (fun ⟨h₁, hle⟩ hx => ?_) ⟨h, le_rfl⟩ hrun
  · rw [h.position_eq, hP.1.position_eq]
    exact hP.2
  · obtain ⟨h', ⟨-, he⟩ | ⟨a, -, hleads⟩⟩ := h₁.happen hx
    · exact ⟨h', he ▸ hle⟩
    · exact ⟨h', hle.trans hleads.position_le⟩

/-- What a caller may rely on once a cursor has given answers. -/
structure Contract (connections : Connections σ) (answers : List Answer) (c : Cursor)
    (w : World σ) : Prop where
  /-- Nothing leads to an earlier position. -/
  forward : ∀ {happenings later c' w'},
    c.run connections happenings w = some (later, c', w') → c.position ≤ c'.position
  /-- The row number is the number of steps that went on to a row. -/
  counted : c.rowNumber = answers.countP Answer.isRow
  /-- A step that goes on to a row adds one to it, and no other call changes it. -/
  counts : ∀ {x a c' w'}, c.call connections w x = some (a, c', w') →
    c'.rowNumber = c.rowNumber + if a.isRow then 1 else 0
  /-- Once the end is reported, it is reported by every step, and nothing is asked of the services:
  they may as well be others. -/
  ended : .moved (.ok false) ∈ answers → ∀ (connections : Connections σ) pages w,
    c.next connections pages w = some (.ok false, c, w)
  /-- Columns once answered are answered again. -/
  columns : ∀ schema, .columns (.ok schema) ∈ answers → ∀ (connections : Connections σ) w,
    c.metadata connections w = (.ok schema, c, w)
  /-- Before the first row and after the end there are no values. -/
  unread : (∀ a ∈ answers, a.isRow = false) ∨ .moved (.ok false) ∈ answers →
    ∀ i, ∃ e, c.value i = .error e ∧ e.kind = .invalidState
  /-- A step that fails while the token is cancelled changes nothing that can be told. -/
  interrupted : ∀ {pages e c' w'}, c.next connections pages w = some (.error e, c', w') →
    w'.isCancelled c.interrupt = true →
      c'.current = c.current ∧ c'.rowNumber = c.rowNumber ∧ c'.position = c.position

theorem Answered.contract (h : Answered answers c) (w : World σ) :
    Contract connections answers c w where
  forward hrun := h.sound.position_le hrun
  counted := h.rowNumber
  counts hx := by
    rw [rowNumber_eq, rowNumber_eq]
    exact (h.sound.call hx).2.rowNumber
  ended hm := h.sound.next_eq_of_afterLast (h.ended hm)
  columns schema hm := metadata_eq_of_schema (h.columns schema hm)
  unread hu i := by
    have hcurrent : c.current = none := by
      refine h.sound.current_eq_none (hu.imp (fun hnone => ?_) h.ended)
      rw [h.rowNumber, List.countP_eq_zero]
      exact fun a ha => by simp [hnone a ha]
    exact ⟨.invalidState "No current row; call next() first",
      by rw [value, hcurrent, currentValue], rfl⟩
  interrupted hn hw := h.sound.standing_eq_of_error hn hw

/-- Whatever is done with a cursor, and whatever the services do, it keeps the contract. -/
theorem keeps_contract (h₀ : c₀.IsUnused) {happenings : List (Happening σ)}
    (hrun : c₀.run connections happenings w₀ = some (answers, c, w)) :
    Contract connections answers c w := by
  have hstart : Answered [] c₀ :=
    { sound := h₀.sound
      rowNumber := h₀.rowNumber
      ended := nofun
      columns := nofun }
  exact (hstart.run hrun).contract w

/-- A cursor over the pages of the slow desk, that requests ahead. -/
def slowCursor : Cursor :=
  paged { Paged.ofHandle "query-1" .eager { number := 1 } with timeout := .zero }

/-- It is called for all rows, is interrupted on the way, and meets a refused page and a late
one. -/
def slowHappenings : List (Happening Desk) :=
  [.called .metadata, .called (.next 1), .meanwhile (World.onInterrupts (·.cancel { number := 1 })),
    .called (.next 1), .called .clearInterrupt, .called (.next 1), .called (.next 1),
    .meanwhile fun w => { w with outside := w.outside.release }, .called (.next 1),
    .called (.next 1)]

/-- What comes of it. -/
def slowRun : Option (List Answer × Cursor × World Desk) :=
  slowCursor.run { service := Paged.slowService } slowHappenings
    { interrupts := { issued := 2 }, outside := Paged.slowDesk }

/-- Three failures on the way cost neither a row nor the end. -/
theorem keeps_contract_slow :
    ∃ answers c w, slowRun = some (answers, c, w) ∧ answers.length = 8 ∧ c.rowNumber = 2 ∧
      ∀ pages, c.next { service := Paged.slowService } pages w = some (.ok false, c, w) := by
  have hcounts : (slowRun.map fun x => (x.1.length, x.1.countP Answer.isRow)) = some (8, 2) := by
    cbv
  have hlast : (slowRun.bind fun x => x.1.getLast?) = some (.moved (.ok false)) := by cbv
  obtain ⟨⟨answers, c, w⟩, hrun, he⟩ := Option.map_eq_some_iff.1 hcounts
  have hcontract : Contract { service := Paged.slowService } answers c w :=
    keeps_contract (.paged _ _ _ _ _) hrun
  rw [hrun] at hlast
  exact ⟨answers, c, w, hrun, congrArg Prod.fst he, hcontract.counted.trans (congrArg Prod.snd he),
    fun pages => hcontract.ended (List.mem_of_getLast? hlast) _ pages w⟩

end QueryResults.Cursor
