import QueryResults.Proofs.Cursor.Calls
import QueryResults.Proofs.Paged.Accounts

/-!
# Where a cursor over pages stands

The position of a cursor over pages is told from its row number, the rows it holds, and the places
where the token of the next page is kept. They change at different moments, but never so that the
last row is left for an earlier one: it is taken for the last only when no page comes any more, and
from then on nothing is loaded. The argument needs little of what is known of a cursor, and nothing
of the pages (`Paged.Coherent`); what loading a page does to a cursor is said once (`Paged.Loaded`).

## Main definitions

* `Paged.standing`, `Paged.Coherent`.
* `Paged.Loaded`: what loading a page does to a cursor.
* `Paged.Stepped`: what going on to the next row does to it.

## Main results

* `Paged.loaded`, `Coherent.next`: every load and every step is of this kind.
* `Coherent.leads_metadata`, `Coherent.leads_next`: calls lead from one standing to another.
-/

namespace QueryResults.Cursor.Paged

open Service (Page)

variable {σ : Type} {service : Service (World σ)} {c c' : Paged} {w w' : World σ}

/-! ### Loading a page -/

/-- What loading a page does to a cursor, with each answer. -/
inductive Loaded (c : Paged) : Except Failure Bool → Paged → Prop
  /-- No page comes any more. -/
  | exhausted (h : c.IsExhausted) : Loaded c (.ok false) c
  /-- The wait ended without an answer, and the request stays under way. -/
  | waiting (e : Failure) (p : Pending) (h : ¬c.IsExhausted) (hp : p.token = c.dueToken) :
      Loaded c (.error e) { c with pending := some p, nextToken := none }
  /-- The request failed, and its token is taken back. -/
  | refused (e : Failure) (h : ¬c.IsExhausted) :
      Loaded c (.error e) { c with pending := none, nextToken := c.dueToken }
  /-- A page came. -/
  | page (page : Page) (h : ¬c.IsExhausted) :
      Loaded c (.ok true) ({ c with pending := none, nextToken := none }.absorb page)
  /-- A page came, and the one after it is requested ahead. -/
  | ahead (page : Page) (p : Pending) (h : ¬c.IsExhausted) (hp : p.token.isSome = true) :
      Loaded c (.ok true)
        { { c with pending := none, nextToken := none }.absorb page with
          pending := some p, nextToken := none }

/-- Without a request to wait for no page comes any more. -/
theorem isExhausted_of_demand_eq_none (h : c.demand service w = none) : c.IsExhausted := by
  unfold demand at h
  split at h
  · cases h
  · rename_i hp
    split at h
    · rename_i hs
      rw [Bool.and_eq_true, Option.isNone_iff_eq_none] at hs
      exact ⟨hs.1, hp, hs.2⟩
    · cases h

/-- The request to wait for carries the token that is due, which is kept nowhere else. -/
theorem eq_of_demand_eq_some {p : Pending} (hc : c.pending.isSome = true → c.nextToken = none)
    (h : c.demand service w = some (p, c', w')) :
    c' = { c with nextToken := none } ∧ p.token = c.dueToken ∧ ¬c.IsExhausted := by
  unfold demand at h
  split at h
  · rename_i hp
    cases h
    exact ⟨by rw [← hc (by rw [hp, Option.isSome_some])], by rw [dueToken, hp],
      fun he => nomatch hp.symm.trans he.pending⟩
  · rename_i hp
    split at h
    · cases h
    · rename_i hs
      cases h
      refine ⟨rfl, by rw [dueToken, hp], fun he => hs ?_⟩
      rw [he.started, he.nextToken]
      rfl

/-- A wait ends with a page, with the request still under way, or with its token taken back. -/
theorem cursor_of_await {p : Pending} {r : Except Failure Page}
    (h : c.await service p w = (r, c', w')) :
    (∃ e, r = .error e ∧ (c' = { c with pending := some p } ∨
        c' = { c with pending := none, nextToken := p.token })) ∨
      ∃ page, r = .ok page ∧ c' = { c with pending := none } := by
  unfold await at h
  simp only at h
  split at h
  · cases h
    exact .inl ⟨_, rfl, .inl rfl⟩
  · split at h
    · cases h
      exact .inr ⟨_, rfl, rfl⟩
    · cases h
      exact .inl ⟨_, rfl, .inr rfl⟩
    · cases h
      exact .inl ⟨_, rfl, .inl rfl⟩

/-- Requesting a page ahead moves its token to the request. -/
theorem cursor_of_prefetch (service : Service (World σ)) (c : Paged) (w : World σ) :
    (c.prefetch service w).1 = c ∨
      ∃ p : Pending, p.token.isSome = true ∧
        (c.prefetch service w).1 = { c with pending := some p, nextToken := none } := by
  unfold prefetch
  split
  · exact .inr ⟨_, rfl, rfl⟩
  · exact .inl rfl

theorem loaded (hc : c.pending.isSome = true → c.nextToken = none) {r : Except Failure Bool}
    (h : c.load service w = (r, c', w')) : Loaded c r c' := by
  unfold load at h
  split at h
  · rename_i hd
    cases h
    exact .exhausted (isExhausted_of_demand_eq_none hd)
  · rename_i p c₁ w₁ hd
    obtain ⟨rfl, hp, he⟩ := eq_of_demand_eq_some hc hd
    split at h
    · rename_i e c₂ w₂ ha
      cases h
      rcases cursor_of_await ha with ⟨_, hr, rfl | rfl⟩ | ⟨_, hr, -⟩
      · exact .waiting e p he hp
      · rw [hp]
        exact .refused e he
      · cases hr
    · rename_i page c₂ w₂ ha
      simp only [Prod.mk.injEq] at h
      obtain ⟨rfl, rfl, -⟩ := h
      rcases cursor_of_await ha with ⟨_, hr, -⟩ | ⟨_, hr, rfl⟩
      · cases hr
      · rcases cursor_of_prefetch service (absorb _ page) w₂ with hp' | ⟨p', hsome, hp'⟩
        · rw [hp']
          exact .page page he
        · rw [hp']
          exact .ahead page p' he hsome

/-- Loading a page touches neither the current row nor its number, and the columns once known
stay. -/
theorem Loaded.frame {r : Except Failure Bool} (h : Loaded c r c') :
    c'.current = c.current ∧ c'.rowNumber = c.rowNumber ∧ c'.afterLast = c.afterLast ∧
      ∀ columns, c.schema = some columns → c'.schema = some columns := by
  have absorbed (page : Page) (columns : Schema) (hs : c.schema = some columns) :
      (c.schema <|> some page.columns) = some columns := by
    rw [hs]
    rfl
  cases h with
  | exhausted => exact ⟨rfl, rfl, rfl, fun _ => id⟩
  | waiting => exact ⟨rfl, rfl, rfl, fun _ => id⟩
  | refused => exact ⟨rfl, rfl, rfl, fun _ => id⟩
  | page page => exact ⟨rfl, rfl, rfl, absorbed page⟩
  | ahead page => exact ⟨rfl, rfl, rfl, absorbed page⟩

/-! ### Coherence -/

/-- What holds of a cursor over pages between any two calls. -/
structure Coherent (c : Paged) : Prop where
  schema : c.schema.isSome = c.started
  fresh : c.started = false → c.rows = []
  /-- A token is kept only while no request is under way. -/
  apart : c.pending.isSome = true → c.nextToken = none
  /-- Only the first page is requested without a token. -/
  token : c.started = true → ∀ p ∈ c.pending, p.token.isSome = true
  unread : c.rowNumber = 0 → c.current = none
  past : c.afterLast = true → c.rows = [] ∧ c.current = none ∧ c.IsExhausted

/-- A cursor takes its row for the last only when no page comes any more. -/
theorem isExhausted_of_isLast (h : c.isLast = true) : c.IsExhausted := by
  simp only [isLast, Bool.and_eq_true, Option.isNone_iff_eq_none] at h
  exact ⟨h.1.1.1, h.1.2, h.1.1.2⟩

theorem isLast_eq_false (h : ¬c.IsExhausted) : c.isLast = false := by
  rw [← Bool.not_eq_true]
  exact mt isExhausted_of_isLast h

/-- Going on to a row that is held, the last page stays the last. -/
theorem isLast_advance {row : Row} {rows : List Row} (hrows : c.rows = row :: rows)
    (h : c.isLast = true) : (c.advance row rows).isLast = true := by
  cases ht : c.trigger with
  | onDemand => simp [isLast, ht, hrows] at h
  | eager => simpa [isLast, ht, Paged.advance] using h

namespace Coherent

theorem ofHandle (handle : Handle) (trigger : Trigger) (interrupt : Token) (pageSize : Nat)
    (timeout : Duration) :
    Coherent { Paged.ofHandle handle trigger interrupt with pageSize, timeout } where
  schema := rfl
  fresh _ := rfl
  apart := nofun
  token := nofun
  unread _ := rfl
  past := nofun

/-- The page size and the interrupt have nothing to do with coherence. -/
theorem withSettings (h : Coherent c) (pageSize : Nat) (interrupt : Token) :
    Coherent { c with pageSize, interrupt } where
  schema := h.schema
  fresh := h.fresh
  apart := h.apart
  token := h.token
  unread := h.unread
  past ha := ⟨(h.past ha).1, (h.past ha).2.1, { (h.past ha).2.2 with }⟩

/-- Where a page comes yet, its token is there, unless it is the first. -/
theorem dueToken_isSome (h : Coherent c) (he : ¬c.IsExhausted) (hs : c.started = true) :
    c.dueToken.isSome = true := by
  unfold dueToken
  cases hp : c.pending with
  | some p => exact h.token hs p hp
  | none =>
    rw [Option.isSome_iff_ne_none]
    exact fun hn => he ⟨hs, hp, hn⟩

/-- A load that fails leaves a page to come. -/
theorem not_isExhausted_of_error {e : Failure} (h : Coherent c) (hl : Loaded c (.error e) c') :
    ¬c.IsExhausted ∧ ¬c'.IsExhausted := by
  cases hl with
  | waiting e p he hp => exact ⟨he, fun h' => nomatch h'.pending⟩
  | refused e he =>
    refine ⟨he, fun h' => ?_⟩
    have := h.dueToken_isSome he h'.started
    rw [show c.dueToken = none from h'.nextToken] at this
    cases this

/-- Loading a page keeps a cursor coherent. -/
theorem load {r : Except Failure Bool} (h : Coherent c) (hl : Loaded c r c') : Coherent c' := by
  have notOver (he : ¬c.IsExhausted) (ha : c.afterLast = true) : False := he (h.past ha).2.2
  cases hl with
  | exhausted => exact h
  | waiting e p he hp =>
    exact
      { schema := h.schema
        fresh := h.fresh
        apart := fun _ => rfl
        token := fun hs _ hp' => by
          obtain rfl := Option.some.inj hp'
          rw [hp]
          exact h.dueToken_isSome he hs
        unread := h.unread
        past := fun ha => (notOver he ha).elim }
  | refused e he =>
    exact
      { schema := h.schema
        fresh := h.fresh
        apart := fun hp => by cases hp
        token := fun _ p hp => by cases hp
        unread := h.unread
        past := fun ha => (notOver he ha).elim }
  | page page he =>
    exact
      { schema := by cases hs : c.schema <;> simp [absorb]
        fresh := fun hs => by cases hs
        apart := fun hp => by cases hp
        token := fun _ p hp => by cases hp
        unread := h.unread
        past := fun ha => (notOver he ha).elim }
  | ahead page p he hp =>
    exact
      { schema := by cases hs : c.schema <;> simp [absorb]
        fresh := fun hs => by cases hs
        apart := fun _ => rfl
        token := fun _ _ hp' => by
          obtain rfl := Option.some.inj hp'
          exact hp
        unread := h.unread
        past := fun ha => (notOver he ha).elim }

/-- Going on to a row that is held. -/
theorem advance {row : Row} {rows : List Row} (h : Coherent c) (hrows : c.rows = row :: rows) :
    Coherent (c.advance row rows) where
  schema := h.schema
  fresh hs := nomatch hrows.symm.trans (h.fresh hs)
  apart := h.apart
  token := h.token
  unread := nofun
  past ha := nomatch hrows.symm.trans (h.past ha).1

/-- Going past the last row. -/
theorem finish (h : Coherent c) (hrows : c.rows = []) (he : c.IsExhausted) :
    Coherent c.finish where
  schema := h.schema
  fresh := h.fresh
  apart := h.apart
  token := h.token
  unread _ := rfl
  past _ := ⟨hrows, rfl, ⟨he.started, he.pending, he.nextToken⟩⟩

end Coherent

/-! ### Steps -/

/-- What going on to the next row does to a cursor, with each answer. -/
inductive Stepped (c c' : Paged) : Except Failure Bool → Prop
  | row (hnumber : c'.rowNumber = c.rowNumber + 1) (hover : c.afterLast = false)
      (hlast : c.isLast = true → c'.isLast = true) : Stepped c c' (.ok true)
  | past (hnumber : c'.rowNumber = c.rowNumber) (hover : c'.afterLast = true) :
      Stepped c c' (.ok false)
  /-- Before and after a step that fails there is a page to come. -/
  | failed (e : Failure) (hcurrent : c'.current = c.current)
      (hnumber : c'.rowNumber = c.rowNumber) (hover : c'.afterLast = c.afterLast)
      (hlast : c.isLast = false) (hlast' : c'.isLast = false) : Stepped c c' (.error e)

/-- A step that has loaded a page before it went on. -/
theorem Stepped.of_loaded {c₁ : Paged} {r : Except Failure Bool} (h : Stepped c₁ c' r)
    (hl : Loaded c (.ok true) c₁) : Stepped c c' r := by
  obtain ⟨hcurrent, hnumber, hover, -⟩ := hl.frame
  have hlast : c.isLast = false := by
    cases hl with
    | page _ he => exact isLast_eq_false he
    | ahead _ _ he _ => exact isLast_eq_false he
  cases h with
  | row hn ho _ => exact .row (hnumber ▸ hn) (hover ▸ ho) fun h => nomatch hlast.symm.trans h
  | past hn ho => exact .past (hn.trans hnumber) ho
  | failed e hc hn ho _ hlast' =>
    exact .failed e (hc.trans hcurrent) (hn.trans hnumber) (ho.trans hover) hlast hlast'

/-- A cursor that is coherent stays so with every step, and keeps its columns. -/
theorem Coherent.next {bound : Nat} {r : Except Failure Bool} (h : Coherent c)
    (hn : c.next service bound w = some (r, c', w')) :
    Coherent c' ∧ Stepped c c' r ∧
      ∀ columns, c.schema = some columns → c'.schema = some columns := by
  fun_induction Paged.next service bound c w with
  | case1 bound c w ha =>
    cases hn
    exact ⟨h, .past rfl ha, fun _ => id⟩
  | case2 bound c w ha row rows hrows =>
    cases hn
    rw [Bool.not_eq_true] at ha
    exact ⟨h.advance hrows, .row rfl ha (isLast_advance hrows), fun _ => id⟩
  | case3 c w ha hrows => cases hn
  | case4 c w ha hrows bound e c₁ w₁ hl =>
    cases hn
    have hload := loaded h.apart hl
    obtain ⟨hcurrent, hnumber, hover, hschema⟩ := hload.frame
    obtain ⟨he, he'⟩ := h.not_isExhausted_of_error hload
    exact ⟨h.load hload,
      .failed e hcurrent hnumber hover (isLast_eq_false he) (isLast_eq_false he'), hschema⟩
  | case5 c w ha hrows bound c₁ w₁ hl =>
    cases hn
    cases loaded h.apart hl with
    | exhausted he => exact ⟨h.finish hrows he, .past rfl rfl, fun _ => id⟩
  | case6 c w ha hrows bound c₁ w₁ hl ih =>
    have hload := loaded h.apart hl
    obtain ⟨h', hstep, hschema⟩ := ih (h.load hload) hn
    exact ⟨h', hstep.of_loaded hload, fun columns hs =>
      hschema columns (hload.frame.2.2.2 columns hs)⟩

/-- Asking for the columns of a cursor that has not started loads the first page. -/
theorem Coherent.metadata {r : Except Failure Schema} (h : Coherent c)
    (hm : c.metadata service w = (r, c', w')) :
    Coherent c' ∧ (c' = c ∨ c.started = false ∧ ∃ r', Loaded c r' c') ∧
      ∀ columns, r = .ok columns → c'.schema = some columns := by
  unfold Paged.metadata at hm
  split at hm
  · rename_i columns hs
    cases hm
    exact ⟨h, .inl rfl, by rintro _ ⟨⟩; exact hs⟩
  · rename_i hs
    have hstarted : c.started = false := by rw [← h.schema, hs]; rfl
    split at hm
    · rename_i e c₁ w₁ hl
      cases hm
      have hload := loaded h.apart hl
      exact ⟨h.load hload, .inr ⟨hstarted, _, hload⟩, nofun⟩
    · rename_i b c₁ w₁ hl
      cases hm
      have hload := loaded h.apart hl
      refine ⟨h.load hload, .inr ⟨hstarted, _, hload⟩, fun columns hr => ?_⟩
      split at hr
      · rename_i hs'
        cases hr
        exact hs'
      · cases hr

/-! ### Standings -/

/-- What can be told of a cursor over pages. -/
def standing (c : Paged) : Standing where
  rowNumber := c.rowNumber
  current := c.current
  afterLast := c.afterLast
  isLast := c.isLast
  schema := c.schema

theorem Coherent.leads_next {bound : Nat} {r : Except Failure Bool} (h : Coherent c)
    (hn : c.next service bound w = some (r, c', w')) :
    c.standing.Leads (.moved r) c'.standing := by
  obtain ⟨-, hstep, hschema⟩ := h.next hn
  cases hstep with
  | row hnumber hover hlast =>
    exact
      { rowNumber := hnumber
        afterLast := fun ha => nomatch hover.symm.trans ha
        isLast := fun h => .inl (hlast h)
        schema := hschema
        answered := nofun
        ended := nofun }
  | past hnumber hover =>
    exact
      { rowNumber := hnumber
        afterLast := fun _ => hover
        isLast := fun _ => .inr hover
        schema := hschema
        answered := nofun
        ended := fun _ => hover }
  | failed e hcurrent hnumber hover hlast hlast' =>
    exact
      { rowNumber := hnumber
        afterLast := hover.trans
        isLast := fun h => nomatch hlast.symm.trans h
        schema := hschema
        answered := nofun
        ended := nofun }

theorem Coherent.leads_metadata {r : Except Failure Schema} (h : Coherent c)
    (hm : c.metadata service w = (r, c', w')) :
    c.standing.Leads (.columns r) c'.standing := by
  obtain ⟨-, hc, hanswered⟩ := h.metadata hm
  have hanswered (columns : Schema) (he : Answer.columns r = .columns (.ok columns)) :
      c'.schema = some columns := hanswered columns (Answer.columns.inj he)
  rcases hc with rfl | ⟨hstarted, r', hload⟩
  · exact
      { rowNumber := rfl
        afterLast := id
        isLast := .inl
        schema := fun _ => id
        answered := hanswered
        ended := nofun }
  · obtain ⟨-, hnumber, hover, hschema⟩ := hload.frame
    have hlast : c.isLast = false :=
      isLast_eq_false fun he => nomatch hstarted.symm.trans he.started
    exact
      { rowNumber := hnumber
        afterLast := hover.trans
        isLast := fun h => nomatch hlast.symm.trans h
        schema := hschema
        answered := hanswered
        ended := nofun }

end QueryResults.Cursor.Paged
