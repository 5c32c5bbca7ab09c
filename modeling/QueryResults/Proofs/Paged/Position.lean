import QueryResults.Proofs.Paged.Journal
import QueryResults.Proofs.Paged.Standing

/-!
# Where the last row is reported

A row is the last if the page that it came from names no other and, where pages are requested on
demand, it is the final row of that page. A cursor does not keep the page of its current row. It
tells from what it holds: from the token of the next page, the request under way and the rows still
to come. Between any two calls both agree, also while a request is under way and after requests that
failed, although a call may have to go over pages without a row.

The argument needs three facts about the pages received. All of them but the last name another; the
rows that are held are rows of the last page; and when no page comes any more, the current row is
one of the last page as well.

## Main definitions

* `Paged.ComesFrom`: the page that a row came from.
* `Paged.Placed`, `Paged.Settled`: the invariants, within a call and between calls.

## Main results

* `Paged.exists_comesFrom`, `ComesFrom.unique`: every row exposed came from one page.
* `Placed.load`, `Placed.next`, `Settled.call`, `Settled.run`: what every step and every call
  preserves.
* `Settled.isLast_iff`: the page of the current row and what the cursor holds agree.
* `Paged.position_eq_last_iff`: where the last row is reported, after any run.
-/

namespace QueryResults.Cursor.Paged

open Service (Page)

/-! ### The page of a row -/

/-- The `k`-th row exposed came from `page`, before which the pages `before` were received. It is
the final row of the page if `k` is the number of all rows up to there. -/
structure ComesFrom (pages : List Page) (k : Nat) (before : List Page) (page : Page) : Prop where
  received : before ++ [page] <+: pages
  behind : (dueRows before).length < k
  within : k ≤ (dueRows (before ++ [page])).length

variable {pages before before' : List Page} {page page' : Page} {k : Nat}

theorem dueRows_mono (h : before <+: pages) : dueRows before <+: dueRows pages := by
  obtain ⟨after, rfl⟩ := h
  cases before with
  | nil => exact List.nil_prefix
  | cons page before =>
    rw [List.cons_append, dueRows, dueRows, List.flatMap_append, ← List.append_assoc]
    exact List.prefix_append _ _

/-- Every row came from a page. -/
theorem exists_comesFrom (hpos : 0 < k) (hle : k ≤ (dueRows pages).length) :
    ∃ before page, ComesFrom pages k before page := by
  induction pages using List.reverseRecOn with
  | nil => exact absurd hpos (Nat.not_lt.2 hle)
  | append_singleton pages page ih =>
    rcases Nat.lt_or_ge (dueRows pages).length k with hlt | hle'
    · exact ⟨pages, page, List.prefix_rfl, hlt, hle⟩
    · obtain ⟨before, page', h⟩ := ih hle'
      exact ⟨before, page', h.received.trans (List.prefix_append _ _), h.behind, h.within⟩

namespace ComesFrom

theorem length_le (h : ComesFrom pages k before page) (h' : ComesFrom pages k before' page') :
    before.length ≤ before'.length := by
  by_contra hlt
  have hlength : (before' ++ [page']).length ≤ before.length := by
    rw [List.length_append, List.length_singleton]
    omega
  have hbefore := (List.prefix_append before [page]).trans h.received
  have hprefix := List.prefix_of_prefix_length_le h'.received hbefore hlength
  have hdue := (dueRows_mono hprefix).length_le
  have hbehind := h.behind
  have hwithin := h'.within
  omega

/-- A row came from one page only. -/
theorem unique (h : ComesFrom pages k before page) (h' : ComesFrom pages k before' page') :
    before = before' ∧ page = page' := by
  have hlength : (before ++ [page]).length = (before' ++ [page']).length := by
    rw [List.length_append, List.length_append, List.length_singleton, List.length_singleton,
      Nat.le_antisymm (h.length_le h') (h'.length_le h)]
  have heq := (List.prefix_of_prefix_length_le h.received h'.received hlength.le).eq_of_length
    hlength
  obtain ⟨hbefore, hpage⟩ := List.append_inj' heq rfl
  exact ⟨hbefore, List.singleton_inj.1 hpage⟩

/-- The page of a row is the last one received, or one of those before it. -/
theorem last_or_before (h : ComesFrom pages k before page) :
    before ++ [page] = pages ∨ before ++ [page] <+: pages.dropLast := by
  obtain ⟨after, rfl⟩ := h.received
  rcases List.eq_nil_or_concat after with rfl | ⟨after, page', rfl⟩
  · exact .inl (List.append_nil _).symm
  · rw [List.concat_eq_append, ← List.append_assoc, List.dropLast_concat]
    exact .inr (List.prefix_append _ _)

end ComesFrom

/-! ### Within a call -/

variable {σ : Type} {service : Service (World σ)} {c c' : Paged} {w w' : World (σ × List Page)}
  {exposed : List Row}

/-- What holds of a cursor between any two pages. -/
structure Placed (exposed : List Row) (pages : List Page) (c : Paged) : Prop where
  accounts : Accounts exposed pages c
  coherent : Coherent c
  /-- Every page but the last names another. -/
  chained : ∀ page ∈ pages.dropLast, page.next ≠ none
  /-- The rows that are held came with the last page. -/
  held : (dueRows pages.dropLast).length ≤ exposed.length

/-- A load receives a page, but only if one was to come, or it receives none. -/
theorem pages_of_load {r : Except Failure Bool} (hc : c.pending.isSome = true → c.nextToken = none)
    (h : c.load service.logged w = (r, c', w')) :
    w'.pages = w.pages ∨ ∃ page, w'.pages = w.pages ++ [page] ∧ ¬c.IsExhausted := by
  unfold Paged.load at h
  split at h
  · cases h
    exact .inl rfl
  · rename_i p c₁ w₁ hd
    obtain ⟨-, -, hw₁⟩ := demand_eq_some hc hd
    obtain ⟨-, -, he⟩ := eq_of_demand_eq_some hc hd
    split at h
    · rename_i e c₂ w₂ ha
      cases h
      rcases await_cases ha with ⟨_, _, hw₂, -⟩ | ⟨_, hr, -⟩
      · exact .inl (hw₂.trans hw₁)
      · cases hr
    · rename_i page c₂ w₂ ha
      cases h
      rcases await_cases ha with ⟨_, hr, -⟩ | ⟨page', -, hw₂, -⟩
      · cases hr
      · have hpages := (prefetch_frame service (c₂.absorb page) w₂).1
        exact .inr ⟨page', hpages.trans (hw₂.trans (congrArg (· ++ [page']) hw₁)), he⟩

theorem Loaded.trigger_eq {c c' : Paged} {r : Except Failure Bool} (h : Loaded c r c') :
    c'.trigger = c.trigger := by
  cases h <;> rfl

namespace Placed

theorem ofHandle (handle : Handle) (trigger : Trigger) (interrupt : Token) (timeout : Duration) :
    Placed [] [] { Paged.ofHandle handle trigger interrupt with timeout } where
  accounts := .ofHandle handle trigger interrupt timeout
  coherent := .ofHandle handle trigger interrupt maxPageSize timeout
  chained := nofun
  held := le_rfl

/-- No page comes any more exactly if the last one received names no other. -/
theorem isExhausted_iff (h : Placed exposed pages c) (hlast : pages.getLast? = some page) :
    c.IsExhausted ↔ page.next = none := by
  have htoken : c.dueToken = page.next := by
    rw [h.accounts.token, hlast]
    rfl
  constructor
  · intro he
    rw [← htoken, dueToken, he.pending]
    exact he.nextToken
  · intro hnone
    by_contra he
    have hne : pages ≠ [] := by
      rintro rfl
      cases hlast
    have hsome := h.coherent.dueToken_isSome he (h.accounts.started.2 hne)
    rw [htoken, hnone] at hsome
    cases hsome

/-- While a page is to come, every page received names another. -/
theorem next_ne_none (h : Placed exposed pages c) (he : ¬c.IsExhausted) :
    ∀ page ∈ pages, page.next ≠ none := by
  intro page hmem
  rcases List.eq_nil_or_concat pages with rfl | ⟨init, last, rfl⟩
  · cases hmem
  · have hchained := h.chained
    rw [List.concat_eq_append, List.dropLast_concat] at hchained
    rw [List.concat_eq_append, List.mem_append, List.mem_singleton] at hmem
    rcases hmem with hmem | rfl
    · exact hchained page hmem
    · refine mt (h.isExhausted_iff ?_).2 he
      rw [List.concat_eq_append, List.getLast?_concat]

/-- Loading a page. One that comes is behind all rows exposed. -/
theorem load {r : Except Failure Bool} (h : Placed exposed w.pages c) (hrows : c.rows = [])
    (hl : c.load service.logged w = (r, c', w')) :
    Placed exposed w'.pages c' := by
  have haccounts := (h.accounts.load hrows hl).1
  have hcoherent := h.coherent.load (loaded h.coherent.apart hl)
  rcases pages_of_load h.coherent.apart hl with hpages | ⟨page, hpages, he⟩
  · exact ⟨haccounts, hcoherent, hpages ▸ h.chained, hpages ▸ h.held⟩
  · have hdrop : w'.pages.dropLast = w.pages := by rw [hpages, List.dropLast_concat]
    refine ⟨haccounts, hcoherent, hdrop ▸ h.next_ne_none he, ?_⟩
    rw [hdrop, ← h.accounts.due, hrows, List.append_nil]

/-- Going on to a row that is held. -/
theorem advance {row : Row} {rows : List Row} (h : Placed exposed pages c)
    (hrows : c.rows = row :: rows) : Placed (exposed ++ [row]) pages (c.advance row rows) where
  accounts := h.accounts.advance hrows
  coherent := h.coherent.advance hrows
  chained := h.chained
  held := h.held.trans (by simp)

/-- Going past the last row. -/
theorem finish (h : Placed exposed pages c) (hrows : c.rows = []) (he : c.IsExhausted) :
    Placed exposed pages c.finish where
  accounts := h.accounts.finish hrows he
  coherent := h.coherent.finish hrows he
  chained := h.chained
  held := h.held

end Placed

/-- What going on to the next row comes to, with each answer. -/
inductive Gone (exposed : List Row) (pages : List Page) (c c' : Paged) :
    Except Failure Bool → Prop
  /-- The row came with the last page. -/
  | row (row : Row) (hcurrent : c'.current = some row) (h : Placed (exposed ++ [row]) pages c')
      (hpage : (dueRows pages.dropLast).length ≤ exposed.length) :
      Gone exposed pages c c' (.ok true)
  | past (hover : c'.afterLast = true) (h : Placed exposed pages c') :
      Gone exposed pages c c' (.ok false)
  /-- A page is still to come. -/
  | failed (e : Failure) (hover : c.afterLast = false) (hcurrent : c'.current = c.current)
      (he : ¬c'.IsExhausted) (h : Placed exposed pages c') : Gone exposed pages c c' (.error e)

theorem Placed.next {r : Except Failure Bool} {bound : Nat} (h : Placed exposed w.pages c)
    (hn : c.next service.logged bound w = some (r, c', w')) :
    Gone exposed w'.pages c c' r ∧ c'.trigger = c.trigger := by
  fun_induction Paged.next service.logged bound c w with
  | case1 bound c w ha =>
    cases hn
    exact ⟨.past ha h, rfl⟩
  | case2 bound c w ha row rows hrows =>
    cases hn
    exact ⟨.row row rfl (h.advance hrows) h.held, rfl⟩
  | case3 c w ha hrows => cases hn
  | case4 c w ha hrows bound e c₁ w₁ hl =>
    cases hn
    have hload := loaded h.coherent.apart hl
    exact ⟨.failed e (Bool.not_eq_true _ ▸ ha) hload.frame.1
      (h.coherent.not_isExhausted_of_error hload).2 (h.load hrows hl), hload.trigger_eq⟩
  | case5 c w ha hrows bound c₁ w₁ hl =>
    cases hn
    have hload := loaded h.coherent.apart hl
    obtain ⟨hend, -, he⟩ := (h.accounts.load hrows hl).2.2.2 rfl
    subst hend
    exact ⟨.past rfl ((h.load hrows hl).finish hrows he), hload.trigger_eq⟩
  | case6 c w ha hrows bound c₁ w₁ hl ih =>
    have hload := loaded h.coherent.apart hl
    obtain ⟨hcurrent, -, hover, -⟩ := hload.frame
    obtain ⟨hgone, htrigger⟩ := ih (h.load hrows hl) hn
    refine ⟨?_, htrigger.trans hload.trigger_eq⟩
    cases hgone with
    | row row hc h' hpage => exact .row row hc h' hpage
    | past ho h' => exact .past ho h'
    | failed e ho hc he h' => exact .failed e (hover ▸ ho) (hc.trans hcurrent) he h'

/-! ### Between calls -/

/-- What holds of a cursor between any two calls. -/
structure Settled (exposed : List Row) (pages : List Page) (c : Paged) : Prop where
  placed : Placed exposed pages c
  current : c.afterLast = false → c.current = exposed.getLast?
  /-- When no page comes any more, the current row came with the last. -/
  reached : c.afterLast = false → c.IsExhausted → exposed ≠ [] →
    (dueRows pages.dropLast).length < exposed.length

/-- The row is taken for the last exactly if no page comes any more and, on demand, no row is
held. -/
theorem isLast_iff : c.isLast = true ↔ c.IsExhausted ∧ (c.trigger = .onDemand → c.rows = []) := by
  have hexhausted : c.IsExhausted ↔
      (c.started && c.nextToken.isNone && c.pending.isNone) = true := by
    simp only [Bool.and_eq_true, Option.isNone_iff_eq_none]
    exact ⟨fun ⟨hs, hp, hn⟩ => ⟨⟨hs, hn⟩, hp⟩, fun ⟨⟨hs, hn⟩, hp⟩ => ⟨hs, hp, hn⟩⟩
  rw [hexhausted, isLast, Bool.and_eq_true]
  refine and_congr_right fun _ => ?_
  cases c.trigger <;> simp

namespace Settled

/-- The row is taken for the last exactly if its page names no other and, on demand, it is the final
row of the page. -/
theorem isLast_iff (h : Settled exposed pages c) (hover : c.afterLast = false)
    (hfrom : ComesFrom pages c.rowNumber before page) :
    c.isLast = true ↔ page.next = none ∧
      (c.trigger = .onDemand → c.rowNumber = (dueRows (before ++ [page])).length) := by
  have hnumber := h.placed.accounts.rowNumber
  have hne : exposed ≠ [] := by
    rintro rfl
    exact absurd hfrom.behind (by simp [hnumber])
  rw [Paged.isLast_iff]
  rcases hfrom.last_or_before with hlast | hbefore
  · -- the page is the last one received, and the rows held are what is left of it
    have hrows : c.rows = [] ↔ c.rowNumber = (dueRows (before ++ [page])).length := by
      rw [hlast, ← h.placed.accounts.due, List.length_append, hnumber, ← List.length_eq_zero_iff]
      omega
    rw [h.placed.isExhausted_iff (by rw [← hlast, List.getLast?_concat]), hrows]
  · -- the page names another, and if that one was the last, the current row would be one of its
    have hnext : page.next ≠ none :=
      h.placed.chained page (hbefore.subset (by simp))
    have hexhausted : ¬c.IsExhausted := by
      intro he
      have hreached := h.reached hover he hne
      have hwithin := hfrom.within.trans (dueRows_mono hbefore).length_le
      omega
    exact ⟨fun hl => absurd hl.1 hexhausted, fun hl => absurd hl.1 hnext⟩

/-- A cursor with a current row is not past the end, and the row is the last one exposed. -/
theorem of_current {row : Row} (h : Settled exposed pages c) (hcurrent : c.current = some row) :
    c.afterLast = false ∧ exposed.getLast? = some row := by
  have hover : c.afterLast = false := by
    by_contra hover
    rw [Bool.not_eq_false] at hover
    cases hcurrent.symm.trans (h.placed.coherent.past hover).2.1
  exact ⟨hover, (h.current hover).symm.trans hcurrent⟩

theorem ofHandle (handle : Handle) (trigger : Trigger) (interrupt : Token) (timeout : Duration) :
    Settled [] [] { Paged.ofHandle handle trigger interrupt with timeout } where
  placed := .ofHandle handle trigger interrupt timeout
  current _ := rfl
  reached _ _ hne := absurd rfl hne

/-- The page size and the interrupt have nothing to do with where a cursor is settled. -/
theorem withSettings (h : Settled exposed pages c) (pageSize : Nat) (interrupt : Token) :
    Settled exposed pages { c with pageSize, interrupt } where
  placed :=
    { accounts := h.placed.accounts.withSettings pageSize interrupt
      coherent := h.placed.coherent.withSettings pageSize interrupt
      chained := h.placed.chained
      held := h.placed.held }
  current := h.current
  reached ho he := h.reached ho ⟨he.started, he.pending, he.nextToken⟩

/-- Loading the first page. -/
theorem load {r : Except Failure Bool} (h : Settled exposed w.pages c) (hs : c.schema = none)
    (hl : c.load service.logged w = (r, c', w')) :
    Settled exposed w'.pages c' ∧ c'.trigger = c.trigger := by
  have hstarted : ¬c.started = true := by simp [← h.placed.coherent.schema, hs]
  have hdue := h.placed.accounts.due
  rw [h.placed.accounts.pages_eq_nil hstarted, dueRows_nil, List.append_eq_nil_iff] at hdue
  have hload := loaded h.placed.coherent.apart hl
  obtain ⟨hcurrent, -, hover, -⟩ := hload.frame
  exact
    ⟨{ placed := h.placed.load hdue.2 hl
       current := fun ho => hcurrent.trans (h.current (hover.symm.trans ho))
       reached := fun _ _ hne => absurd hdue.1 hne }, hload.trigger_eq⟩

/-- Asking for the columns of a cursor that has not started loads the first page. -/
theorem metadata {r : Except Failure Schema} (h : Settled exposed w.pages c)
    (hm : c.metadata service.logged w = (r, c', w')) :
    Settled exposed w'.pages c' ∧ c'.trigger = c.trigger := by
  unfold Paged.metadata at hm
  split at hm
  · cases hm
    exact ⟨h, rfl⟩
  · rename_i hs
    split at hm <;> rename_i hl <;> cases hm <;> exact h.load hs hl

/-- Going on to the next row. -/
theorem next {r : Except Failure Bool} {bound : Nat} (h : Settled exposed w.pages c)
    (hn : c.next service.logged bound w = some (r, c', w')) :
    (∃ exposed', Settled exposed' w'.pages c') ∧ c'.trigger = c.trigger := by
  obtain ⟨hgone, htrigger⟩ := h.placed.next hn
  refine ⟨?_, htrigger⟩
  cases hgone with
  | row row hcurrent h' hpage =>
    exact
      ⟨exposed ++ [row],
        { placed := h'
          current := fun _ => hcurrent.trans List.getLast?_concat.symm
          reached := fun _ _ _ => by
            rw [List.length_append, List.length_singleton]
            exact Nat.lt_succ_of_le hpage }⟩
  | past hover h' =>
    exact
      ⟨exposed,
        { placed := h'
          current := fun ho => nomatch hover.symm.trans ho
          reached := fun ho => nomatch hover.symm.trans ho }⟩
  | failed e hover hcurrent he h' =>
    exact
      ⟨exposed,
        { placed := h'
          current := fun _ => hcurrent.trans (h.current hover)
          reached := fun _ he' => absurd he' he }⟩

/-- Every call leaves a cursor settled, under the same trigger. -/
theorem call {j j' : Journal σ} {a : Call σ} (h : Settled exposed j.world.pages j.cursor)
    (ha : j.call service a = some j') :
    (∃ exposed', Settled exposed' j'.world.pages j'.cursor) ∧
      j'.cursor.trigger = j.cursor.trigger := by
  cases a with
  | metadata =>
    cases ha
    obtain ⟨h', htrigger⟩ := h.metadata rfl
    exact ⟨⟨exposed, h'⟩, htrigger⟩
  | next bound =>
    obtain ⟨⟨r, c, w⟩, hn, rfl⟩ := Option.map_eq_some_iff.1 ha
    exact h.next hn
  | setPageSize n =>
    rcases Journal.eq_of_setPageSize ha with rfl | rfl
    · exact ⟨⟨exposed, h⟩, rfl⟩
    · exact ⟨⟨exposed, h.withSettings n _⟩, rfl⟩
  | setInterrupt t =>
    cases ha
    exact ⟨⟨exposed, h.withSettings _ t⟩, rfl⟩
  | clearInterrupt =>
    cases ha
    exact ⟨⟨exposed, h.withSettings _ _⟩, rfl⟩
  | meanwhile f =>
    cases ha
    exact ⟨⟨exposed, h⟩, rfl⟩

/-- Every run leaves a cursor settled, under the same trigger. -/
theorem run {j j' : Journal σ} {calls : List (Call σ)}
    (h : Settled exposed j.world.pages j.cursor) (hrun : j.run service calls = some j') :
    (∃ exposed', Settled exposed' j'.world.pages j'.cursor) ∧
      j'.cursor.trigger = j.cursor.trigger := by
  refine Journal.run_induction
    (P := fun j' => (∃ exposed', Settled exposed' j'.world.pages j'.cursor) ∧
      j'.cursor.trigger = j.cursor.trigger) ?_ ⟨⟨exposed, h⟩, rfl⟩ hrun
  rintro a - j₁ j₂ ⟨⟨exposed, h⟩, htrigger⟩ ha
  obtain ⟨h', htrigger'⟩ := h.call ha
  exact ⟨h', htrigger'.trans htrigger⟩

end Settled

/-- On a row the position is the last, the first or one between. -/
theorem position_of_pos {isLast : Bool} (hpos : 0 < k) :
    (Position.of k false isLast = .last ↔ isLast = true) ∧
      (Position.of k false isLast ≠ .last →
        Position.of k false isLast = if k = 1 then .first else .middle) := by
  have hne : k ≠ 0 := Nat.ne_of_gt hpos
  cases isLast with
  | true => simp [Position.of, hne]
  | false =>
    by_cases h1 : k = 1 <;> simp [Position.of, hne, h1]

/-- After any run a current row is reported as the last exactly if the page that it came from names
no other and, where pages are requested on demand, it is the final row of this page. Any other row
is reported as the first or as one in the middle, by its number. The run may leave a request under
way and may have had requests that timed out, were interrupted or failed. -/
theorem position_eq_last_iff (service : Service (World σ)) (handle : Handle) (trigger : Trigger)
    (interrupt : Token) (timeout : Duration) (w : World σ) {calls : List (Call σ)} {j : Journal σ}
    {row : Row}
    (hrun : (Journal.ofHandle handle trigger interrupt timeout w).run service calls = some j)
    (hcurrent : j.cursor.current = some row) :
    ∃ before page, ComesFrom j.world.pages j.cursor.rowNumber before page ∧
      (dueRows j.world.pages)[j.cursor.rowNumber - 1]? = some row ∧
      (j.cursor.position = .last ↔ page.next = none ∧
        (trigger = .onDemand → j.cursor.rowNumber = (dueRows (before ++ [page])).length)) ∧
      (j.cursor.position ≠ .last →
        j.cursor.position = if j.cursor.rowNumber = 1 then .first else .middle) := by
  obtain ⟨⟨exposed, h⟩, rfl⟩ :=
    Settled.run (j := .ofHandle handle trigger interrupt timeout w)
      (.ofHandle handle trigger interrupt timeout) hrun
  obtain ⟨hover, hlast⟩ := h.of_current hcurrent
  have hnumber := h.placed.accounts.rowNumber
  have hpos : 0 < j.cursor.rowNumber := by
    rw [hnumber]
    exact List.length_pos_of_mem (List.mem_of_getLast? hlast)
  have hle : j.cursor.rowNumber ≤ (dueRows j.world.pages).length := by
    rw [← h.placed.accounts.due, List.length_append, hnumber]
    exact Nat.le_add_right _ _
  obtain ⟨before, page, hfrom⟩ := exists_comesFrom hpos hle
  refine ⟨before, page, hfrom, ?_, ?_⟩
  · rw [← h.placed.accounts.due, hnumber, ← hlast, List.getLast?_eq_getElem?]
    exact List.getElem?_append_left (by omega)
  · rw [← h.isLast_iff hover hfrom, Paged.position, hover]
    exact position_of_pos hpos

/-- A desk that gives out two pages of two rows each, the second only when it is asked for again and
released. -/
def heldDesk : Desk :=
  { content := .pages
      [{ columns := [], rows := [[some "n"], [some "1"]], next := some "page-2" },
        { columns := [], rows := [[some "2"], [some "3"]], next := none }]
    faults := [{}, { held := true }] }

/-- The calls that go on to the first row of the second page, which is waited for twice. -/
def heldCalls : List (Call Desk) :=
  [.next 1, .next 1, .meanwhile fun w => { w with outside := w.outside.release }, .next 1]

/-- The journal of these calls, under either trigger. -/
def heldJournal (trigger : Trigger) : Option (Journal Desk) :=
  (Journal.ofHandle "query-1" trigger { number := 1 } .zero { outside := heldDesk }).run slowService
    heldCalls

/-- A row of the last page that is not the final one: with pages requested ahead it is reported as
the last, and on demand it is not. -/
theorem position_eq_last_iff_held :
    (∃ j before page, heldJournal .eager = some j ∧ j.cursor.position = .last ∧
        ComesFrom j.world.pages j.cursor.rowNumber before page ∧ page.next = none) ∧
      ∃ j before page, heldJournal .onDemand = some j ∧ j.cursor.position = .middle ∧
        ComesFrom j.world.pages j.cursor.rowNumber before page ∧
        (page.next = none → j.cursor.rowNumber ≠ (dueRows (before ++ [page])).length) := by
  have hheld (trigger : Trigger) : ((heldJournal trigger).map fun j =>
      (j.cursor.current, j.cursor.position)) =
        some (some [some "2"], if trigger = .eager then .last else .middle) := by
    cases trigger <;> cbv
  constructor
  · obtain ⟨j, hj, he⟩ := Option.map_eq_some_iff.1 (hheld .eager)
    obtain ⟨hcurrent, hposition⟩ := Prod.mk.inj he
    obtain ⟨before, page, hfrom, -, hlast, -⟩ := position_eq_last_iff _ _ _ _ _ _ hj hcurrent
    exact ⟨j, before, page, hj, hposition, hfrom, (hlast.1 hposition).1⟩
  · obtain ⟨j, hj, he⟩ := Option.map_eq_some_iff.1 (hheld .onDemand)
    obtain ⟨hcurrent, hposition⟩ := Prod.mk.inj he
    have hmiddle : j.cursor.position = .middle := hposition
    obtain ⟨before, page, hfrom, -, hlast, -⟩ := position_eq_last_iff _ _ _ _ _ _ hj hcurrent
    refine ⟨j, before, page, hj, hmiddle, hfrom, fun hnext hfinal => ?_⟩
    have := hlast.2 ⟨hnext, fun _ => hfinal⟩
    cases hmiddle.symm.trans this

end QueryResults.Cursor.Paged
