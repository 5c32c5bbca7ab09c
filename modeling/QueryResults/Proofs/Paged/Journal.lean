import QueryResults.Proofs.Paged.Accounts
import QueryResults.Service.Desk

/-!
# Journals of cursors over pages

A cursor over pages is called again and again: for its columns, for the next row, to change the page
size or the interrupt. Between the calls anything may happen to the interrupts and to the service.
The *journal* of a cursor keeps what was current after each call that went on to a row.

Whatever the calls and whatever becomes of the requests for pages, the journal holds the first rows
of the pages received, in order and each once. The end is reported only when it holds all of them
and the last page received names no other.

## Main definitions

* `Paged.Call`, `Paged.Journal`, `Journal.call`, `Journal.run`.

## Main results

* `Journal.run_induction`: what every call keeps holds after every run.
* `Paged.next_of_le`: allowing for more pages without a row changes no answer.
* `Paged.exposes_in_order`: what is exposed by any run.
-/

namespace QueryResults.Cursor.Paged

open Service (Page)

variable {σ : Type}

/-- What is done with a cursor, and what happens meanwhile. -/
inductive Call (σ : Type) where
  | metadata
  /-- Goes on to the next row, over at most `bound` pages without a row. -/
  | next (bound : Nat)
  | setPageSize (n : Nat)
  | setInterrupt (t : Token)
  | clearInterrupt
  /-- The interrupts and the service change. -/
  | meanwhile (f : World σ → World σ)

/-- A cursor, the world around it with the pages received, and what was current after each call that
went on to a row. -/
structure Journal (σ : Type) where
  cursor : Paged
  world : World (σ × List Page)
  exposed : List (Option Row) := []

namespace Journal

variable (service : Service (World σ))

/-- What is exposed by an answer to the call for the next row. -/
def exposure (c : Paged) : Except Failure Bool → List (Option Row)
  | .ok true => [c.current]
  | _ => []

/-- The journal after a call. There is none if the call does not come back. -/
def call (j : Journal σ) : Call σ → Option (Journal σ)
  | .metadata =>
    let (_, cursor, world) := j.cursor.metadata service.logged j.world
    some { j with cursor, world }
  | .next bound =>
    (j.cursor.next service.logged bound j.world).map fun (r, cursor, world) =>
      { cursor, world, exposed := j.exposed ++ exposure cursor r }
  | .setPageSize n =>
    match j.cursor.setPageSize n with
    | .ok cursor => some { j with cursor }
    | .error _ => some j
  | .setInterrupt t => some { j with cursor := { j.cursor with interrupt := t } }
  | .clearInterrupt =>
    let (cursor, world) := j.cursor.clearInterrupt j.world
    some { j with cursor, world }
  | .meanwhile f => some { j with world := (World.inner (fun v => ((), f v)) j.world).2 }

/-- The journal after calls in any order. There is none if one of them does not come back. -/
def run (j : Journal σ) (calls : List (Call σ)) : Option (Journal σ) :=
  calls.foldlM (call service) j

/-- The journal of a cursor that was not called yet. -/
def ofHandle (handle : Handle) (trigger : Trigger) (interrupt : Token) (timeout : Duration)
    (w : World σ) : Journal σ :=
  { cursor := { Paged.ofHandle handle trigger interrupt with timeout }
    world := { interrupts := w.interrupts, outside := (w.outside, []) } }

variable {service} {j j' : Journal σ}

/-- What every call keeps holds after every run. -/
theorem run_induction {P : Journal σ → Prop} {calls : List (Call σ)}
    (hcall : ∀ a ∈ calls, ∀ j j', P j → call service j a = some j' → P j') (h : P j)
    (hrun : j.run service calls = some j') : P j' := by
  induction calls generalizing j with
  | nil =>
    cases hrun
    exact h
  | cons a calls ih =>
    obtain ⟨j₁, h₁, hrun⟩ := Option.bind_eq_some_iff.1 hrun
    have hrest : ∀ b ∈ calls, ∀ j j', P j → call service j b = some j' → P j' :=
      fun b hb => hcall b (List.mem_cons_of_mem a hb)
    exact ih hrest (hcall a List.mem_cons_self j j₁ h h₁) hrun

/-- A new page size is taken over or refused. -/
theorem eq_of_setPageSize {n : Nat} (h : j.call service (.setPageSize n) = some j') :
    j' = j ∨ j' = { j with cursor := { j.cursor with pageSize := n } } := by
  unfold Journal.call setPageSize at h
  cases hn : checkPageSize n with
  | error e =>
    simp only [hn, Except.map] at h
    exact .inl (Option.some.inj h).symm
  | ok u =>
    simp only [hn, Except.map] at h
    exact .inr (Option.some.inj h).symm

/-- A journal whose cursor keeps its accounts. -/
def Balanced (j : Journal σ) : Prop :=
  ∃ rows, j.exposed = rows.map some ∧ Accounts rows j.world.pages j.cursor

theorem Balanced.call {a : Call σ} (h : j.Balanced) (ha : j.call service a = some j') :
    j'.Balanced := by
  obtain ⟨rows, he, h⟩ := h
  cases a with
  | metadata =>
    cases ha
    exact ⟨rows, he, (h.metadata rfl).1⟩
  | next bound =>
    obtain ⟨⟨r, c, w⟩, hn, rfl⟩ := Option.map_eq_some_iff.1 ha
    cases (h.next hn).1 with
    | row row hc h' => exact ⟨rows ++ [row], by simp [he, exposure, hc], h'⟩
    | past h' _ => exact ⟨rows, by simp [he, exposure], h'⟩
    | failed e h' _ => exact ⟨rows, by simp [he, exposure], h'⟩
  | setPageSize n =>
    rcases eq_of_setPageSize ha with rfl | rfl
    · exact ⟨rows, he, h⟩
    · exact ⟨rows, he, h.withSettings n _⟩
  | setInterrupt t =>
    cases ha
    exact ⟨rows, he, h.withSettings _ t⟩
  | clearInterrupt =>
    cases ha
    exact ⟨rows, he, h.withSettings _ _⟩
  | meanwhile f =>
    cases ha
    exact ⟨rows, he, h⟩

end Journal

/-- A call for the next row that comes back does so with the same answer if more pages without a row
are allowed for. -/
theorem next_of_le {service : Service (World σ)} {bound bound' : Nat} {c : Paged} {w : World σ}
    {r : Except Failure Bool × Paged × World σ} (hle : bound ≤ bound')
    (h : c.next service bound w = some r) : c.next service bound' w = some r := by
  fun_induction Paged.next service bound c w generalizing bound' with
  | case1 bound c w ha =>
    rw [Paged.next.eq_def, if_pos ha]
    exact h
  | case2 bound c w ha row rows hrows =>
    rw [Paged.next.eq_def, if_neg ha, hrows]
    exact h
  | case3 c w ha hrows => cases h
  | case4 c w ha hrows bound e c₁ w₁ hl =>
    obtain ⟨b, rfl⟩ := Nat.exists_eq_add_of_le' (Nat.lt_of_lt_of_le (Nat.succ_pos _) hle)
    rw [Paged.next, if_neg ha, hrows]
    simp only [hl]
    exact h
  | case5 c w ha hrows bound c₁ w₁ hl =>
    obtain ⟨b, rfl⟩ := Nat.exists_eq_add_of_le' (Nat.lt_of_lt_of_le (Nat.succ_pos _) hle)
    rw [Paged.next, if_neg ha, hrows]
    simp only [hl]
    exact h
  | case6 c w ha hrows bound c₁ w₁ hl ih =>
    obtain ⟨b, rfl⟩ := Nat.exists_eq_add_of_le' (Nat.lt_of_lt_of_le (Nat.succ_pos _) hle)
    rw [Paged.next, if_neg ha, hrows]
    simp only [hl]
    exact ih (Nat.le_of_succ_le_succ hle) h

/-- After any run the rows exposed are the first of those received and their number is the row
number. The next call goes on to the row that is due, or fails and leaves the current row as it is,
or finds that all rows received are exposed and no page comes any more. -/
theorem exposes_in_order (service : Service (World σ)) (handle : Handle) (trigger : Trigger)
    (interrupt : Token) (timeout : Duration) (w : World σ) {calls : List (Call σ)} {j : Journal σ}
    (hrun : (Journal.ofHandle handle trigger interrupt timeout w).run service calls = some j) :
    j.exposed <+: (dueRows j.world.pages).map some ∧ j.cursor.rowNumber = j.exposed.length ∧
      ∀ bound r c w', j.cursor.next service.logged bound j.world = some (r, c, w') →
        j.world.pages <+: w'.pages ∧
        match r with
        | .ok true => j.exposed ++ [c.current] <+: (dueRows w'.pages).map some
        | .ok false =>
          j.exposed = (dueRows w'.pages).map some ∧
            ∃ page, w'.pages.getLast? = some page ∧ page.next = none
        | .error _ => c.current = j.cursor.current := by
  have hstart : (Journal.ofHandle handle trigger interrupt timeout w).Balanced :=
    ⟨[], rfl, Accounts.ofHandle handle trigger interrupt timeout⟩
  obtain ⟨rows, he, h⟩ : j.Balanced :=
    Journal.run_induction (fun a _ j j' hj => hj.call) hstart hrun
  refine ⟨?_, by simp [h.rowNumber, he], fun bound r c w' hn => ?_⟩
  · rw [he, ← h.due, List.map_append]
    exact List.prefix_append _ _
  · obtain ⟨hmoved, hp⟩ := h.next hn
    refine ⟨hp, ?_⟩
    cases hmoved with
    | row row hc h' =>
      simp only
      rw [he, hc, ← h'.due, List.map_append, List.map_append]
      exact List.prefix_append _ _
    | past h' ha =>
      obtain ⟨hall, hlast⟩ := h'.eq_dueRows ha
      exact ⟨by rw [he, hall], hlast⟩
    | failed e h' hc => exact hc

/-- A desk that gives out two pages, the second only when it is asked for again and released. -/
def slowDesk : Desk :=
  { content := .pages
      [{ columns := [], rows := [[some "n"], [some "1"]], next := some "page-2" },
        { columns := [], rows := [], next := none },
        { columns := [], rows := [[none]], next := none }]
    faults := [{}, { refusal := some (.io "Connection reset") }, { held := true }] }

/-- The desk as a service that interrupts nobody. -/
def slowService : Service (World Desk) := Desk.service id (fun d _ => d) id

/-- The calls that go over all rows of the desk. -/
def slowCalls : List (Call Desk) :=
  [.metadata, .next 1, .next 1, .next 1,
    .meanwhile fun w => { w with outside := w.outside.release }, .next 1]

/-- The journal of these calls. -/
def slowJournal : Option (Journal Desk) :=
  (Journal.ofHandle "query-1" .eager { number := 1 } .zero { outside := slowDesk }).run slowService
    slowCalls

/-- Neither a refused page nor one that is waited for twice costs a row. -/
theorem exposes_in_order_slow :
    ∃ j c w', slowJournal = some j ∧
      j.cursor.next slowService.logged 1 j.world = some (.ok false, c, w') ∧
      j.exposed = (dueRows w'.pages).map some := by
  have hnext : (slowJournal.bind fun j =>
      (j.cursor.next slowService.logged 1 j.world).map Prod.fst) = some (.ok false) := by cbv
  obtain ⟨j, hj, hr⟩ := Option.bind_eq_some_iff.1 hnext
  obtain ⟨⟨r, c, w'⟩, hn, rfl⟩ := Option.map_eq_some_iff.1 hr
  exact ⟨j, c, w', hj, hn, ((exposes_in_order slowService _ _ _ _ _ hj).2.2 1 _ _ _ hn).2.1⟩

end QueryResults.Cursor.Paged
