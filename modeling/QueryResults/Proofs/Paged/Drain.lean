import Mathlib
import QueryResults.Cursor.Paged

/-!
# Draining pages

A service that is asked for the pages of a result one after the other, each under the token that the
page before has named, and that answers every request with the page that is due, lets a cursor show
all rows of the pages but the first, which repeats the labels. The first page may hold nothing else,
and every other page holds a row at least, so a step to the next row loads two pages at most.

## Main definitions

* `Service.Returns`: a service that returns pages one after the other.
* `Paged.Unopened`, `Paged.Stocked`, `Paged.Draining`: a cursor that is drained, with the rows still
  to come.

## Main results

* `Draining.metadata`, `Draining.row`, `Draining.past`: what each call comes to.
-/

namespace QueryResults

open Service (Page)

variable {σ : Type}

/-- A service that returns pages to whoever requests them one after the other, and lets nobody be
interrupted meanwhile. Every page but the last names the next. -/
def Service.Returns (service : Service (World σ)) (handle : Handle) (maxRows : Nat)
    (token : Token) : Option String → List Page → World σ → Prop
  | _, [], _ => True
  | next, page :: pages, w =>
    let (ticket, asked) := service.request { handle, token := next, maxRows } w
    asked.isCancelled token = false ∧ (service.receive ticket asked).1 = some (.ok page) ∧
      (page.next = none ↔ pages = []) ∧
      service.Returns handle maxRows token page.next pages (service.receive ticket asked).2

namespace Cursor.Paged

variable {service : Service (World σ)} {schema : Schema} {n : Nat} {todo : List Row} {c : Paged}
  {w : World σ} {page : Page} {pages : List Page} {rows : List Row}

/-! ### Loading -/

/-- A page that is returned is taken over. -/
theorem load_of_returns (htrigger : c.trigger = .onDemand) (hpending : c.pending = none)
    (hnext : c.started = true → c.nextToken ≠ none)
    (h : service.Returns c.handle c.pageSize c.interrupt c.nextToken (page :: pages) w) :
    ∃ w', c.load service w = (.ok true, c.absorb page, w') ∧
      service.Returns c.handle c.pageSize c.interrupt page.next pages w' := by
  obtain ⟨hcancelled, hreceive, -, hrest⟩ := h
  have hdue : (c.started && c.nextToken.isNone) = false := by
    rw [Bool.and_eq_false_imp]
    intro hs
    rw [← Bool.not_eq_true, Option.isNone_iff_eq_none]
    exact hnext hs
  refine ⟨_, ?_, hrest⟩
  simp only [load, demand, hpending, hdue, Bool.false_eq_true, ↓reduceIte, request, await,
    hcancelled]
  generalize service.receive _ _ = x at hreceive
  obtain ⟨answer, w'⟩ := x
  simp only at hreceive
  subst hreceive
  simp only [prefetch, absorb, htrigger, hpending]

/-- A row that is held is gone on to, whatever the number of pages allowed for. -/
theorem next_of_rows {row : Row} (hover : c.afterLast = false) (hrows : c.rows = row :: rows)
    (bound : Nat) :
    c.next service bound w = some (.ok true, c.advance row rows, w) := by
  rw [Paged.next.eq_def, hover, hrows]
  rfl

/-- Once a row has to be loaded, the step goes on with the page loaded. -/
theorem next_of_load {c' : Paged} {w' : World σ} (hover : c.afterLast = false) (hrows : c.rows = [])
    (hload : c.load service w = (.ok true, c', w')) (bound : Nat) :
    c.next service (bound + 1) w = c'.next service bound w' := by
  rw [Paged.next, hover, hrows]
  simp only [Bool.false_eq_true, ↓reduceIte, hload]

/-! ### Rows in stock -/

/-- A cursor that has received a page and exposed `n` rows, with the rows `todo` still to come:
those that it holds and those of the pages that the service will return. -/
structure Stocked (service : Service (World σ)) (schema : Schema) (n : Nat) (todo : List Row)
    (c : Paged) (w : World σ) : Prop where
  trigger : c.trigger = .onDemand
  pending : c.pending = none
  started : c.started = true
  schema_eq : c.schema = some schema
  rowNumber : c.rowNumber = n
  pages : ∃ pages, c.rows ++ pages.flatMap Page.rows = todo ∧ (c.nextToken = none ↔ pages = []) ∧
    (∀ page ∈ pages, page.rows ≠ []) ∧
    service.Returns c.handle c.pageSize c.interrupt c.nextToken pages w
  afterLast : c.afterLast = true → c.current = none ∧ todo = []

namespace Stocked

/-- Going on to a row that is held. -/
theorem advance {row : Row} (h : Stocked service schema n (row :: todo) c w)
    (hrows : c.rows = row :: rows) :
    Stocked service schema (n + 1) todo (c.advance row rows) w where
  trigger := h.trigger
  pending := h.pending
  started := h.started
  schema_eq := h.schema_eq
  rowNumber := congrArg (· + 1) h.rowNumber
  pages := by
    obtain ⟨pages, hsplit, hrest⟩ := h.pages
    rw [hrows, List.cons_append] at hsplit
    exact ⟨pages, (List.cons.inj hsplit).2, hrest⟩
  afterLast ha := nomatch (h.afterLast ha).2

/-- The position on a row tells whether it is the last. -/
theorem position_eq (h : Stocked service schema n todo c w) (hover : c.afterLast = false) :
    c.position = .of n false todo.isEmpty := by
  obtain ⟨pages, hsplit, hnext, hne, -⟩ := h.pages
  have hlast : c.isLast = todo.isEmpty := by
    rw [← hsplit]
    simp only [isLast, h.started, h.pending, h.trigger]
    cases pages with
    | nil => simp [hnext.2 rfl]
    | cons page pages =>
      have hsome : c.nextToken.isNone = false := by
        rw [← Bool.not_eq_true, Option.isNone_iff_eq_none]
        exact fun hn => List.cons_ne_nil _ _ (hnext.1 hn)
      have hrows := hne page List.mem_cons_self
      simp [hsome, hrows]
  rw [position, h.rowNumber, hover, hlast]

/-- Once nothing is held, the next page brings the row that is due. -/
theorem load {row : Row} (h : Stocked service schema n (row :: todo) c w) (hrows : c.rows = []) :
    ∃ c' w' rows, c.load service w = (.ok true, c', w') ∧ c'.afterLast = c.afterLast ∧
      c'.rows = row :: rows ∧ Stocked service schema n (row :: todo) c' w' := by
  obtain ⟨pages, hsplit, hnext, hne, hreturns⟩ := h.pages
  rw [hrows, List.nil_append] at hsplit
  cases pages with
  | nil => cases hsplit
  | cons page pages =>
    have hsome : c.nextToken ≠ none := fun hn => List.cons_ne_nil _ _ (hnext.1 hn)
    obtain ⟨w', hload, hreturns'⟩ := load_of_returns h.trigger h.pending (fun _ => hsome) hreturns
    obtain ⟨row', rows, hpage⟩ := List.exists_cons_of_ne_nil (hne page List.mem_cons_self)
    have hheld : (c.absorb page).rows = page.rows := by
      rw [absorb, h.started]
      rfl
    have hdue : row' = row := by
      rw [List.flatMap_cons, hpage] at hsplit
      exact (List.cons.inj hsplit).1
    subst hdue
    refine ⟨_, w', rows, hload, rfl, hheld.trans hpage, ?_⟩
    exact
      { trigger := h.trigger
        pending := h.pending
        started := rfl
        schema_eq := by simp [absorb, h.schema_eq]
        rowNumber := h.rowNumber
        pages := ⟨pages, by rw [hheld, ← hsplit, List.flatMap_cons], hreturns.2.2.1,
          fun p hp => hne p (List.mem_cons_of_mem _ hp), hreturns'⟩
        afterLast := h.afterLast }

/-- Going on to the next row, while there is one. -/
theorem row {row : Row} (h : Stocked service schema n (row :: todo) c w) (bound : Nat) :
    ∃ c' w', c.next service (bound + 1) w = some (.ok true, c', w') ∧ c'.current = some row ∧
      c'.afterLast = false ∧ Stocked service schema (n + 1) todo c' w' := by
  have hover : c.afterLast = false := by
    rw [← Bool.not_eq_true]
    exact fun ha => List.cons_ne_nil _ _ (h.afterLast ha).2
  cases hrows : c.rows with
  | cons row' rows =>
    obtain ⟨pages, hsplit, -⟩ := h.pages
    rw [hrows, List.cons_append] at hsplit
    obtain ⟨rfl, -⟩ := List.cons.inj hsplit
    exact ⟨_, _, next_of_rows hover hrows _, rfl, hover, h.advance hrows⟩
  | nil =>
    obtain ⟨c', w', rows, hload, hover', hrows', h'⟩ := h.load hrows
    rw [hover] at hover'
    rw [next_of_load hover hrows hload]
    exact ⟨_, _, next_of_rows hover' hrows' _, rfl, hover', h'.advance hrows'⟩

/-- Going on to the next row, when there is none. -/
theorem past (h : Stocked service schema n [] c w) (bound : Nat) :
    ∃ c' w', c.next service (bound + 1) w = some (.ok false, c', w') ∧ c'.current = none ∧
      c'.afterLast = true ∧ Stocked service schema n [] c' w' := by
  cases hover : c.afterLast with
  | true =>
    refine ⟨c, w, ?_, (h.afterLast hover).1, hover, h⟩
    rw [Paged.next, if_pos hover]
  | false =>
    obtain ⟨pages, hsplit, hnext, hne, hreturns⟩ := h.pages
    obtain ⟨hrows, hpages⟩ := List.append_eq_nil_iff.1 hsplit
    obtain rfl : pages = [] := by
      cases pages with
      | nil => rfl
      | cons page pages =>
        rw [List.flatMap_cons, List.append_eq_nil_iff] at hpages
        exact absurd hpages.1 (hne page List.mem_cons_self)
    have hload : c.load service w = (.ok false, c, w) := by
      simp [Paged.load, demand, h.pending, h.started, hnext.2 rfl]
    refine ⟨c.finish, w, ?_, rfl, rfl, ?_⟩
    · rw [Paged.next, hover, hrows]
      simp only [Bool.false_eq_true, ↓reduceIte, hload]
    · exact
        { trigger := h.trigger
          pending := h.pending
          started := h.started
          schema_eq := h.schema_eq
          rowNumber := h.rowNumber
          pages := ⟨[], hsplit, hnext, hne, hreturns⟩
          afterLast := fun _ => ⟨rfl, rfl⟩ }

end Stocked

/-- A cursor that has received nothing yet, with the rows `todo` to come after the labels. -/
structure Unopened (service : Service (World σ)) (schema : Schema) (todo : List Row) (c : Paged)
    (w : World σ) : Prop where
  trigger : c.trigger = .onDemand
  pending : c.pending = none
  started : c.started = false
  schema_eq : c.schema = none
  rowNumber : c.rowNumber = 0
  rows : c.rows = []
  afterLast : c.afterLast = false
  pages : ∃ labels page pages, page.rows ++ pages.flatMap Page.rows = labels :: todo ∧
    page.columns = schema ∧ (∀ p ∈ page :: pages, p.rows ≠ []) ∧
    service.Returns c.handle c.pageSize c.interrupt c.nextToken (page :: pages) w

/-- The first page brings the columns, and its first row is left out. -/
theorem Unopened.load (h : Unopened service schema todo c w) :
    ∃ c' w', c.load service w = (.ok true, c', w') ∧ Stocked service schema 0 todo c' w' := by
  obtain ⟨labels, page, pages, hsplit, hcolumns, hne, hreturns⟩ := h.pages
  obtain ⟨w', hload, hreturns'⟩ :=
    load_of_returns h.trigger h.pending (fun hs => nomatch h.started.symm.trans hs) hreturns
  obtain ⟨row, rows, hpage⟩ := List.exists_cons_of_ne_nil (hne page List.mem_cons_self)
  rw [hpage, List.cons_append] at hsplit
  refine ⟨_, w', hload, ?_⟩
  exact
    { trigger := h.trigger
      pending := h.pending
      started := rfl
      schema_eq := by simp [absorb, h.schema_eq, hcolumns]
      rowNumber := h.rowNumber
      pages := ⟨pages, by simp [absorb, h.started, hpage, (List.cons.inj hsplit).2],
        hreturns.2.2.1, fun p hp => hne p (List.mem_cons_of_mem _ hp), hreturns'⟩
      afterLast := fun ha => nomatch h.afterLast.symm.trans ha }

/-! ### Draining -/

/-- A cursor that has exposed `n` rows and has the rows `todo` still to come. -/
inductive Draining (service : Service (World σ)) (schema : Schema) (n : Nat) (todo : List Row)
    (c : Paged) (w : World σ) : Prop
  | unopened (hn : n = 0) (h : Unopened service schema todo c w)
  | stocked (h : Stocked service schema n todo c w)

namespace Draining

/-- Asking for the columns gives the columns of the first page. -/
theorem metadata (h : Draining service schema n todo c w) :
    ∃ c' w', c.metadata service w = (.ok schema, c', w') ∧
      Draining service schema n todo c' w' := by
  unfold Paged.metadata
  cases h with
  | unopened hn h =>
    obtain ⟨c', w', hload, h'⟩ := h.load
    subst hn
    simp only [h.schema_eq, hload, h'.schema_eq]
    exact ⟨c', w', rfl, .stocked h'⟩
  | stocked h =>
    rw [h.schema_eq]
    exact ⟨c, w, rfl, .stocked h⟩

/-- Going on to the next row, while there is one. -/
theorem row {row : Row} (h : Draining service schema n (row :: todo) c w) (bound : Nat) :
    ∃ c' w', c.next service (bound + 2) w = some (.ok true, c', w') ∧ c'.current = some row ∧
      c'.rowNumber = n + 1 ∧ c'.position = .of (n + 1) false todo.isEmpty ∧
      Draining service schema (n + 1) todo c' w' := by
  obtain ⟨c', w', hnext, hcurrent, hover, h'⟩ : ∃ c' w',
      c.next service (bound + 2) w = some (.ok true, c', w') ∧ c'.current = some row ∧
        c'.afterLast = false ∧ Stocked service schema (n + 1) todo c' w' := by
    cases h with
    | unopened hn h =>
      obtain ⟨c₁, w₁, hload, h₁⟩ := h.load
      subst hn
      rw [next_of_load h.afterLast h.rows hload]
      exact h₁.row bound
    | stocked h => exact h.row (bound + 1)
  exact ⟨c', w', hnext, hcurrent, h'.rowNumber, h'.position_eq hover, .stocked h'⟩

/-- Going on to the next row, when there is none. -/
theorem past (h : Draining service schema n [] c w) (bound : Nat) :
    ∃ c' w', c.next service (bound + 2) w = some (.ok false, c', w') ∧ c'.current = none ∧
      c'.rowNumber = n ∧ c'.position = .afterLast ∧ Draining service schema n [] c' w' := by
  obtain ⟨c', w', hnext, hcurrent, hover, h'⟩ : ∃ c' w',
      c.next service (bound + 2) w = some (.ok false, c', w') ∧ c'.current = none ∧
        c'.afterLast = true ∧ Stocked service schema n [] c' w' := by
    cases h with
    | unopened hn h =>
      obtain ⟨c₁, w₁, hload, h₁⟩ := h.load
      subst hn
      rw [next_of_load h.afterLast h.rows hload]
      exact h₁.past bound
    | stocked h => exact h.past (bound + 1)
  have hposition : c'.position = .afterLast := by
    rw [position, hover]
    rfl
  exact ⟨c', w', hnext, hcurrent, h'.rowNumber, hposition, .stocked h'⟩

end Draining

end Cursor.Paged

end QueryResults
