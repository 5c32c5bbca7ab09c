import QueryResults.Cursor.Paged
import QueryResults.Proofs.Service.Log

/-!
# The accounts of a cursor over pages

Between any two calls, a cursor over pages keeps account of the pages it has received: the rows that
it has exposed, followed by those that it still holds, are the rows of all these pages, the first
row of the first page left out. The token of the page that comes next is held in one place only,
with the request under way or apart from it, and it is the one that the last page named.

## Main definitions

* `Paged.dueRows`: the rows of the pages received, as they are to be exposed.
* `Paged.dueToken`, `Paged.IsExhausted`: what comes after the pages received.
* `Paged.Accounts`: the invariant.

## Main results

* `Paged.Accounts.load`, `Paged.Accounts.metadata`, `Paged.Accounts.next`: what each operation does
  to the accounts.
-/

namespace QueryResults.Cursor.Paged

open Service (Page)

/-- The rows of pages, in order, without the first row of the first page. -/
def dueRows : List Page → List Row
  | [] => []
  | page :: pages => page.rows.tail ++ pages.flatMap Page.rows

@[simp] theorem dueRows_nil : dueRows [] = [] := rfl

theorem dueRows_concat {pages : List Page} (h : pages ≠ []) (page : Page) :
    dueRows (pages ++ [page]) = dueRows pages ++ page.rows := by
  cases pages with
  | nil => exact absurd rfl h
  | cons p pages => simp [dueRows]

/-- The token of the page that comes next. -/
def dueToken (c : Paged) : Option String :=
  match c.pending with
  | some p => p.token
  | none => c.nextToken

/-- Whether no page comes any more. -/
structure IsExhausted (c : Paged) : Prop where
  started : c.started = true
  pending : c.pending = none
  nextToken : c.nextToken = none

/-- The accounts of a cursor that has received the given pages and exposed the given rows. -/
structure Accounts (exposed : List Row) (pages : List Page) (c : Paged) : Prop where
  due : exposed ++ c.rows = dueRows pages
  rowNumber : c.rowNumber = exposed.length
  started : c.started = true ↔ pages ≠ []
  schema : c.schema.isSome = c.started
  token : c.dueToken = pages.getLast?.bind Page.next
  pending : c.pending.isSome = true → c.nextToken = none
  afterLast : c.afterLast = true → c.rows = [] ∧ c.IsExhausted

variable {σ : Type} {service : Service (World σ)} {c c' : Paged} {w w' : World (σ × List Page)}
  {p : Pending} {exposed : List Row} {pages : List Page}

/-! ### One page -/

/-- There is nothing to wait for only if no page comes any more. -/
theorem isExhausted_of_demand (h : c.demand service.logged w = none) : c.IsExhausted := by
  unfold demand at h
  split at h
  · cases h
  · rename_i hp
    split at h
    · rename_i hs
      rw [Bool.and_eq_true, Option.isNone_iff_eq_none] at hs
      exact ⟨hs.1, hp, hs.2⟩
    · cases h

theorem demand_of_isExhausted (h : c.IsExhausted) : c.demand service.logged w = none := by
  simp [demand, h.started, h.pending, h.nextToken]

/-- What is waited for is the page that comes next, and its token is held with the request. -/
theorem demand_eq_some (hc : c.pending.isSome = true → c.nextToken = none)
    (h : c.demand service.logged w = some (p, c', w')) :
    { c' with pending := some p } = { c with pending := some p, nextToken := none } ∧
      p.token = c.dueToken ∧ w'.pages = w.pages := by
  unfold demand at h
  split at h
  · rename_i hp
    cases h
    exact ⟨by rw [← hc (by simp [hp])], by simp [dueToken, hp], rfl⟩
  · rename_i hp
    split at h
    · cases h
    · cases h
      exact ⟨rfl, by simp [dueToken, hp], rfl⟩

/-- A wait that fails leaves the token with the request, or takes it back; the page that a wait
succeeds with goes into the log. -/
theorem await_cases {r : Except Failure Page} (h : c.await service.logged p w = (r, c', w')) :
    (∃ e, r = .error e ∧ w'.pages = w.pages ∧
        (c' = { c with pending := some p } ∨
          c' = { c with pending := none, nextToken := p.token })) ∨
      ∃ page, r = .ok page ∧ w'.pages = w.pages ++ [page] ∧ c' = { c with pending := none } := by
  unfold await at h
  split at h
  · cases h
    exact .inl ⟨_, rfl, rfl, .inl rfl⟩
  · have hpages := Service.pages_receive service w p.ticket
    split at h
    · rename_i page w₁ hr
      rw [hr] at hpages
      cases h
      exact .inr ⟨page, rfl, hpages, rfl⟩
    · rename_i e w₁ hr
      rw [hr] at hpages
      cases h
      exact .inl ⟨_, rfl, by simpa [Service.pageOf] using hpages, .inr rfl⟩
    · rename_i w₁ hr
      rw [hr] at hpages
      cases h
      exact .inl ⟨_, rfl, by simpa [Service.pageOf] using hpages, .inl rfl⟩

/-- Requesting a page ahead receives none and does not touch the current row. -/
theorem prefetch_frame (service : Service (World σ)) (c : Paged) (w : World (σ × List Page)) :
    (c.prefetch service.logged w).2.pages = w.pages ∧
      (c.prefetch service.logged w).1.current = c.current := by
  unfold prefetch
  split <;> exact ⟨rfl, rfl⟩

namespace Accounts

theorem ofHandle (handle : Handle) (trigger : Trigger) (interrupt : Token) (timeout : Duration) :
    Accounts [] [] { ofHandle handle trigger interrupt with timeout } where
  due := rfl
  rowNumber := rfl
  started := ⟨nofun, fun h => absurd rfl h⟩
  schema := rfl
  token := rfl
  pending := nofun
  afterLast := nofun

/-- A cursor that has not started has received no page. -/
theorem pages_eq_nil (h : Accounts exposed pages c) (hs : ¬c.started = true) : pages = [] := by
  have := mt h.started.2 hs
  simpa using this

/-- The page size and the interrupt have nothing to do with the accounts. -/
theorem withSettings (h : Accounts exposed pages c) (pageSize : Nat) (interrupt : Token) :
    Accounts exposed pages { c with pageSize, interrupt } where
  due := h.due
  rowNumber := h.rowNumber
  started := h.started
  schema := h.schema
  token := h.token
  pending := h.pending
  afterLast ha := ⟨(h.afterLast ha).1, { (h.afterLast ha).2 with }⟩

/-- A cursor whose page is used up and that goes on to wait for the next. -/
theorem waiting (h : Accounts exposed pages c) (hn : ¬c.IsExhausted) (hp : p.token = c.dueToken) :
    Accounts exposed pages { c with pending := some p, nextToken := none } where
  due := h.due
  rowNumber := h.rowNumber
  started := h.started
  schema := h.schema
  token := hp.trans h.token
  pending _ := rfl
  afterLast ha := absurd (h.afterLast ha).2 hn

/-- The request that was waited for has failed. -/
theorem refused (h : Accounts exposed pages { c with pending := some p }) :
    Accounts exposed pages { c with pending := none, nextToken := p.token } where
  due := h.due
  rowNumber := h.rowNumber
  started := h.started
  schema := h.schema
  token := h.token
  pending := nofun
  afterLast ha := nomatch (h.afterLast ha).2.pending

/-- The page that was waited for has come. -/
theorem absorb (h : Accounts exposed pages { c with pending := some p }) (hrows : c.rows = [])
    (page : Page) :
    Accounts exposed (pages ++ [page]) (Paged.absorb { c with pending := none } page) where
  due := by
    have hdue := h.due
    simp only [hrows, List.append_nil] at hdue
    simp only [Paged.absorb]
    split
    · rename_i hs
      rw [dueRows_concat (h.started.1 hs), hdue]
    · rename_i hs
      obtain rfl : pages = [] := h.pages_eq_nil hs
      rw [hdue]
      simp [dueRows]
  rowNumber := h.rowNumber
  started := by simp [Paged.absorb]
  schema := by cases c.schema <;> simp [Paged.absorb]
  token := by simp [Paged.absorb, dueToken]
  pending := nofun
  afterLast ha := nomatch (h.afterLast ha).2.pending

/-- Requesting a page ahead moves its token to the request. -/
theorem prefetch (h : Accounts exposed w.pages c) :
    Accounts exposed (c.prefetch service.logged w).2.pages
      (c.prefetch service.logged w).1 := by
  unfold Paged.prefetch
  split
  · rename_i token ht hp hn
    exact
      { due := h.due
        rowNumber := h.rowNumber
        started := h.started
        schema := h.schema
        token := by
          have := h.token
          rw [dueToken, hp, hn] at this
          exact this
        pending := fun _ => rfl
        afterLast := fun ha => nomatch hn.symm.trans (h.afterLast ha).2.nextToken }
  · exact h

/-- Loading a page keeps the accounts, unless there is none to load. -/
theorem load {r : Except Failure Bool} (h : Accounts exposed w.pages c) (hrows : c.rows = [])
    (hl : c.load service.logged w = (r, c', w')) :
    Accounts exposed w'.pages c' ∧ w.pages <+: w'.pages ∧ c'.current = c.current ∧
      (r = .ok false → c' = c ∧ w' = w ∧ c.IsExhausted) := by
  unfold Paged.load at hl
  split at hl
  · rename_i hd
    cases hl
    exact ⟨h, List.prefix_rfl, rfl, fun _ => ⟨rfl, rfl, isExhausted_of_demand hd⟩⟩
  · rename_i p c₁ w₁ hd
    obtain ⟨hc₁, htoken, hw₁⟩ := demand_eq_some h.pending hd
    have hcurrent : c₁.current = c.current := (congrArg Paged.current hc₁ :)
    have hrows₁ : c₁.rows = c.rows := (congrArg Paged.rows hc₁ :)
    have hwaiting : Accounts exposed w₁.pages { c₁ with pending := some p } := by
      rw [hw₁, hc₁]
      exact h.waiting (fun he => nomatch (demand_of_isExhausted he).symm.trans hd) htoken
    split at hl
    · rename_i e c₂ w₂ ha
      cases hl
      rcases await_cases ha with ⟨e, he, hw₂, rfl | rfl⟩ | ⟨page, hpage, -⟩
      · exact ⟨hw₂ ▸ hwaiting, hw₂ ▸ hw₁ ▸ List.prefix_rfl, hcurrent, nofun⟩
      · exact ⟨hw₂ ▸ hwaiting.refused, hw₂ ▸ hw₁ ▸ List.prefix_rfl, hcurrent, nofun⟩
      · cases hpage
    · rename_i page c₂ w₂ ha
      cases hl
      rcases await_cases ha with ⟨e, he, -⟩ | ⟨page, hpage, hw₂, rfl⟩
      · cases he
      · cases hpage
        have habsorbed := hwaiting.absorb (hrows₁.trans hrows) page
        rw [← hw₂] at habsorbed
        obtain ⟨hpages, hcurrent₂⟩ :=
          prefetch_frame service (Paged.absorb { c₁ with pending := none } page) w₂
        have hgrown := hpages.trans (hw₂.trans (congrArg (· ++ [page]) hw₁))
        exact ⟨habsorbed.prefetch, ⟨[page], hgrown.symm⟩, hcurrent₂.trans hcurrent, nofun⟩

/-- Asking for the columns keeps the accounts. -/
theorem metadata {r : Except Failure Schema} (h : Accounts exposed w.pages c)
    (hm : c.metadata service.logged w = (r, c', w')) :
    Accounts exposed w'.pages c' ∧ w.pages <+: w'.pages ∧ c'.current = c.current := by
  unfold Paged.metadata at hm
  split at hm
  · cases hm
    exact ⟨h, List.prefix_rfl, rfl⟩
  · rename_i hs
    have hrows : c.rows = [] := by
      have hnot : ¬c.started = true := by simp [← h.schema, hs]
      have hdue := h.due
      rw [h.pages_eq_nil hnot, dueRows_nil, List.append_eq_nil_iff] at hdue
      exact hdue.2
    split at hm
    · rename_i e c₁ w₁ hl
      cases hm
      obtain ⟨h₁, hp, hc, -⟩ := h.load hrows hl
      exact ⟨h₁, hp, hc⟩
    · rename_i b c₁ w₁ hl
      cases hm
      obtain ⟨h₁, hp, hc, -⟩ := h.load hrows hl
      exact ⟨h₁, hp, hc⟩

/-- Going on to a row that is held. -/
theorem advance {row : Row} {rows : List Row} (h : Accounts exposed pages c)
    (hrows : c.rows = row :: rows) : Accounts (exposed ++ [row]) pages (c.advance row rows) where
  due := by
    rw [← h.due, hrows]
    simp [Paged.advance]
  rowNumber := by
    rw [List.length_append, ← h.rowNumber]
    rfl
  started := h.started
  schema := h.schema
  token := h.token
  pending := h.pending
  afterLast ha := nomatch hrows.symm.trans (h.afterLast ha).1

/-- Going past the last row. -/
theorem finish (h : Accounts exposed pages c) (hrows : c.rows = []) (he : c.IsExhausted) :
    Accounts exposed pages c.finish where
  due := h.due
  rowNumber := h.rowNumber
  started := h.started
  schema := h.schema
  token := h.token
  pending := h.pending
  afterLast _ := ⟨hrows, ⟨he.started, he.pending, he.nextToken⟩⟩

/-- At the end all rows of the pages received are exposed, and the last page named no other. -/
theorem eq_dueRows (h : Accounts exposed pages c) (ha : c.afterLast = true) :
    exposed = dueRows pages ∧ ∃ page, pages.getLast? = some page ∧ page.next = none := by
  obtain ⟨hrows, hstarted, hpending, hnext⟩ := h.afterLast ha
  constructor
  · rw [← h.due, hrows, List.append_nil]
  · have hne := h.started.1 hstarted
    refine ⟨pages.getLast hne, List.getLast?_eq_some_getLast hne, ?_⟩
    have htoken := h.token
    rw [dueToken, hpending, hnext, List.getLast?_eq_some_getLast hne] at htoken
    exact htoken.symm

end Accounts

/-- What going on to the next row does to the accounts, with each answer. -/
inductive Moved (exposed : List Row) (pages : List Page) (c c' : Paged) :
    Except Failure Bool → Prop
  | row (row : Row) (hc : c'.current = some row) (h : Accounts (exposed ++ [row]) pages c') :
      Moved exposed pages c c' (.ok true)
  | past (h : Accounts exposed pages c') (ha : c'.afterLast = true) :
      Moved exposed pages c c' (.ok false)
  | failed (e : Failure) (h : Accounts exposed pages c') (hc : c'.current = c.current) :
      Moved exposed pages c c' (.error e)

theorem Accounts.next {r : Except Failure Bool} {bound : Nat} (h : Accounts exposed w.pages c)
    (hn : c.next service.logged bound w = some (r, c', w')) :
    Moved exposed w'.pages c c' r ∧ w.pages <+: w'.pages := by
  fun_induction Paged.next service.logged bound c w with
  | case1 bound c w ha =>
    cases hn
    exact ⟨.past h ha, List.prefix_rfl⟩
  | case2 bound c w ha row rows hrows =>
    cases hn
    exact ⟨.row row rfl (h.advance hrows), List.prefix_rfl⟩
  | case3 c w ha hrows => cases hn
  | case4 c w ha hrows bound e c₁ w₁ hl =>
    cases hn
    obtain ⟨h₁, hp, hc, -⟩ := h.load hrows hl
    exact ⟨.failed e h₁ hc, hp⟩
  | case5 c w ha hrows bound c₁ w₁ hl =>
    cases hn
    obtain ⟨h₁, hp, -, hend⟩ := h.load hrows hl
    obtain ⟨rfl, rfl, he⟩ := hend rfl
    exact ⟨.past (h.finish hrows he) rfl, hp⟩
  | case6 c w ha hrows bound c₁ w₁ hl ih =>
    obtain ⟨h₁, hp, hc, -⟩ := h.load hrows hl
    obtain ⟨hmoved, hp'⟩ := ih h₁ hn
    refine ⟨?_, hp.trans hp'⟩
    cases hmoved with
    | row row hc' h' => exact .row row hc' h'
    | past h' ha => exact .past h' ha
    | failed e h' hc' => exact .failed e h' (hc'.trans hc)

end QueryResults.Cursor.Paged
