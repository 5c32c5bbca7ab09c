import QueryResults.Proofs.Csv.Faults
import QueryResults.Proofs.Cursor.Contract
import QueryResults.Proofs.Streamed.Drain
import QueryResults.Proofs.Streamed.File

/-!
# What calls of a cursor keep

A cursor does nothing to the world but through the services. So what every request to a service
keeps is kept by every call of a cursor, and by the requests of the download behind it. The cursor's
own token is looked at and never changed, but for its renewal.

## Main definitions

* `Service.Keeps`, `Connections.Keeps`: what every request to the services keeps.

## Main results

* `Cursor.keeps_call`, `Cursor.keeps_close`: what is kept by calls.
* `Cursor.interrupt_call`: only its renewal changes a token.
-/

namespace QueryResults

variable {σ : Type}

/-- A property of the states of a service that nothing asked of it changes. -/
structure Service.Keeps (service : Service σ) (P : σ → Prop) : Prop where
  submit : ∀ s {v}, P v → P (service.submit s v).2
  status : ∀ h {v}, P v → P (service.status h v).2
  stop : ∀ h {v}, P v → P (service.stop h v).2
  request : ∀ r {v}, P v → P (service.request r v).2
  receive : ∀ t {v}, P v → P (service.receive t v).2
  abandon : ∀ t {v}, P v → P (service.abandon t v)

/-- A property of worlds that nothing asked of the services changes. -/
structure Connections.Keeps (connections : Connections σ) (P : World σ → Prop) : Prop where
  service : connections.service.Keeps P
  store : connections.objects.Keeps P

namespace Cursor

variable {P : World σ → Prop} {w w' : World σ}

/-! ### Cursors over pages -/

namespace Paged

variable {service : Service (World σ)} {c c' : Paged}

/-- To have a request to wait for at most a request is sent. -/
theorem of_demand {p : Pending} (h : c.demand service w = some (p, c', w')) :
    c'.handle = c.handle ∧ c'.interrupt = c.interrupt ∧
      (w' = w ∨ ∃ r, w' = (service.request r w).2) := by
  unfold demand at h
  split at h
  · cases h
    exact ⟨rfl, rfl, .inl rfl⟩
  · split at h
    · cases h
    · cases h
      exact ⟨rfl, rfl, .inr ⟨_, rfl⟩⟩

theorem keeps_prefetch (hk : service.Keeps P) (c : Paged) (hw : P w) :
    P (c.prefetch service w).2 := by
  unfold prefetch
  split
  · exact hk.request _ hw
  · exact hw

theorem keeps_await (hk : service.Keeps P) (c : Paged) (p : Pending) (hw : P w) :
    P (c.await service p w).2.2 := by
  have hreceive := hk.receive p.ticket hw
  unfold await
  simp only
  split
  · exact hw
  · split <;> rename_i hr <;> rwa [hr] at hreceive

theorem keeps_load (hk : service.Keeps P) (c : Paged) (hw : P w) : P (c.load service w).2.2 := by
  unfold load
  split
  · exact hw
  · rename_i p c₁ w₁ hd
    have hw₁ : P w₁ := by
      rcases (of_demand hd).2.2 with rfl | ⟨r, rfl⟩
      · exact hw
      · exact hk.request r hw
    have hawait := keeps_await hk c₁ p hw₁
    split
    · rename_i ha
      rwa [ha] at hawait
    · rename_i page c₂ w₂ ha
      rw [ha] at hawait
      exact keeps_prefetch hk (c₂.absorb page) hawait

theorem keeps_next (hk : service.Keeps P) {bound : Nat} {r : Except Failure Bool} (hw : P w)
    (hn : c.next service bound w = some (r, c', w')) : P w' := by
  have hload {c : Paged} {w : World σ} {x : Except Failure Bool × Paged × World σ} (hw : P w)
      (hx : c.load service w = x) : P x.2.2 := hx ▸ keeps_load hk c hw
  fun_induction Paged.next service bound c w with
  | case1 bound c w ha =>
    cases hn
    exact hw
  | case2 bound c w ha row rows hrows =>
    cases hn
    exact hw
  | case3 c w ha hrows => cases hn
  | case4 c w ha hrows bound e c₁ w₁ hl =>
    cases hn
    exact hload hw hl
  | case5 c w ha hrows bound c₁ w₁ hl =>
    cases hn
    exact hload hw hl
  | case6 c w ha hrows bound c₁ w₁ hl ih => exact ih (hload hw hl) hn

theorem keeps_metadata (hk : service.Keeps P) (c : Paged) (hw : P w) :
    P (c.metadata service w).2.2 := by
  have hload := keeps_load hk c hw
  unfold metadata
  split
  · exact hw
  · split <;> rename_i hl <;> rwa [hl] at hload

theorem interrupt_load (service : Service (World σ)) (c : Paged) (w : World σ) :
    (c.load service w).2.1.interrupt = c.interrupt := by
  have hprefetch (c : Paged) (w : World σ) :
      (c.prefetch service w).1.interrupt = c.interrupt := by
    unfold prefetch
    split <;> rfl
  have hawait (c : Paged) (p : Pending) (w : World σ) :
      (c.await service p w).2.1.interrupt = c.interrupt := by
    unfold await
    simp only
    split
    · rfl
    · split <;> rfl
  unfold load
  split
  · rfl
  · rename_i p c₁ w₁ hd
    have hc₁ : c₁.interrupt = c.interrupt := (of_demand hd).2.1
    have hc₂ := hawait c₁ p w₁
    split
    · rename_i ha
      rw [ha] at hc₂
      exact hc₂.trans hc₁
    · rename_i page c₂ w₂ ha
      rw [ha] at hc₂
      exact (hprefetch _ _).trans (hc₂.trans hc₁)

theorem interrupt_next {bound : Nat} {r : Except Failure Bool}
    (hn : c.next service bound w = some (r, c', w')) : c'.interrupt = c.interrupt := by
  have hload {c : Paged} {w : World σ} {x : Except Failure Bool × Paged × World σ}
      (hx : c.load service w = x) : x.2.1.interrupt = c.interrupt := hx ▸ interrupt_load service c w
  fun_induction Paged.next service bound c w with
  | case1 bound c w ha =>
    cases hn
    rfl
  | case2 bound c w ha row rows hrows =>
    cases hn
    rfl
  | case3 c w ha hrows => cases hn
  | case4 c w ha hrows bound e c₁ w₁ hl =>
    cases hn
    exact hload hl
  | case5 c w ha hrows bound c₁ w₁ hl =>
    cases hn
    exact hload hl
  | case6 c w ha hrows bound c₁ w₁ hl ih => exact (ih hn).trans (hload hl)

theorem interrupt_metadata (service : Service (World σ)) (c : Paged) (w : World σ) :
    (c.metadata service w).2.1.interrupt = c.interrupt := by
  have hload := interrupt_load service c w
  unfold metadata
  split
  · rfl
  · split <;> rename_i hl <;> rwa [hl] at hload

end Paged

/-! ### Cursors over result files -/

namespace Streamed

variable {store : Store (World σ)}

/-- Asking for a piece of a file keeps what every request keeps. -/
theorem keeps_pull (hk : store.Keeps P) (r : Download.Reader) (hw : P w) :
    P ((Download.Reader.feed store bufferSize).pull (r, w)).2.2 := by
  have hread := Download.Reader.keeps_read hk bufferSize r hw
  simp only [Download.Reader.feed]
  split <;> rename_i hr <;> rwa [hr] at hread

theorem keeps_readRow (hk : store.Keeps P) (rows : Csv.Reader Download.Reader) (hw : P w) :
    P (readRow store rows w).2.2 := by
  have hgoes {s s' : Download.Reader × World σ} (hs : P s.2)
      (h : (Download.Reader.feed store bufferSize).Goes s s') : P s'.2 := by
    induction h with
    | refl => exact hs
    | @tail u _ _ hstep ih =>
      obtain ⟨p, hp, -⟩ := hstep
      have hpull := keeps_pull hk u.1 ih
      rwa [hp] at hpull
  have hends := Csv.ends_nextRow (Download.Reader.feed store bufferSize)
    (rows.mapRest fun reader => (reader, w))
  change P ((rows.mapRest fun reader => (reader, w)).nextRow
    (Download.Reader.feed store bufferSize)).2.input.rest.2
  unfold Csv.Ends at hends
  split at hends
  · obtain ⟨u, hu, hp⟩ := hends
    have hpull := keeps_pull hk u.1 (hgoes hw hu)
    rwa [hp] at hpull
  · exact hgoes hw hends

theorem keeps_opened (hk : store.Keeps P) (c : Streamed) (hw : P w) : P (c.opened store w).2.2 := by
  have hsidecar := keeps_loadSidecar hk c hw
  unfold opened
  split
  · exact hw
  · split
    · rename_i hl
      rwa [hl] at hsidecar
    · rename_i bytes w₁ hl
      rw [hl] at hsidecar
      split
      · exact hsidecar
      · rename_i columns _
        unfold openFile
        simp only
        have hlabels := keeps_readRow hk
          { columns := columns.length
            input := ⟨[], .ofLocation c.location c.settings⟩ } hsidecar
        split
        · rename_i hr
          rwa [hr] at hlabels
        · rename_i rows w₂ hr
          rw [hr] at hlabels
          have hrow := keeps_readRow hk rows hlabels
          split <;> rename_i hr' <;> rwa [hr'] at hrow

theorem keeps_advance (hk : store.Keeps P) (c : Streamed) (hw : P w) :
    P (c.advance store w).2.2 := by
  unfold advance
  split
  · exact hw
  · simp only [readAhead]
    split
    · exact hw
    · rename_i rows _
      have hrow := keeps_readRow hk rows hw
      split <;> rename_i hr <;> rwa [hr] at hrow
  · exact hw

theorem keeps_next (hk : store.Keeps P) (c : Streamed) (hw : P w) : P (c.next store w).2.2 := by
  have hopened := keeps_opened hk c hw
  unfold next
  split
  · exact hw
  · split
    · exact hw
    · split
      · exact hw
      · split
        · rename_i ho
          rwa [ho] at hopened
        · rename_i c₁ w₁ ho
          rw [ho] at hopened
          exact keeps_advance hk c₁ hopened

theorem keeps_metadata (hk : store.Keeps P) (c : Streamed) (hw : P w) :
    P (c.metadata store w).2.2 := by
  have hopened := keeps_opened hk c hw
  unfold metadata
  split
  · exact hw
  · split
    · exact hw
    · split <;> rename_i ho <;> rwa [ho] at hopened

end Streamed

/-! ### Calls -/

variable {connections : Connections σ} {c c' : Cursor} {x : Call} {a : Answer}

/-- What every request keeps is kept by every call, but for the renewal of the token. -/
theorem keeps_call (hk : connections.Keeps P) (hx : x ≠ .clearInterrupt) (hw : P w)
    (h : c.call connections w x = some (a, c', w')) : P w' := by
  cases x with
  | metadata =>
    cases c with
    | paged c =>
      cases h
      exact Paged.keeps_metadata hk.service c hw
    | streamed c =>
      cases h
      exact Streamed.keeps_metadata hk.store c hw
  | next pages =>
    obtain ⟨⟨r, c₁, w₁⟩, hn, he⟩ := Option.map_eq_some_iff.1 h
    cases he
    cases c with
    | paged c =>
      obtain ⟨⟨r, c₁, w₁⟩, hn, he⟩ := Option.map_eq_some_iff.1 hn
      cases he
      exact Paged.keeps_next hk.service hw hn
    | streamed c =>
      cases hn
      exact Streamed.keeps_next hk.store c hw
  | setPageSize n =>
    simp only [Cursor.call] at h
    split at h <;> cases h <;> exact hw
  | clearInterrupt => exact absurd rfl hx

theorem keeps_close (hk : connections.Keeps P) (c : Cursor) (hw : P w) :
    P (c.close connections w) := by
  cases c with
  | paged c =>
    unfold close Paged.close
    simp only
    split
    · exact hk.service.abandon _ hw
    · exact hw
  | streamed c => exact hw

theorem clearInterrupt_eq (c : Cursor) (w : World σ) :
    c.clearInterrupt w =
      (c.withInterrupt (w.interrupts.renew c.interrupt).1,
        { w with interrupts := (w.interrupts.renew c.interrupt).2 }) := by
  cases c <;> rfl

@[simp]
theorem interrupt_withInterrupt (c : Cursor) (t : Token) : (c.withInterrupt t).interrupt = t := by
  cases c <;> rfl

@[simp]
theorem withInterrupt_interrupt (c : Cursor) : c.withInterrupt c.interrupt = c := by
  cases c <;> rfl

/-- Only its renewal changes the token of a cursor. -/
theorem interrupt_call (hx : x ≠ .clearInterrupt)
    (h : c.call connections w x = some (a, c', w')) : c'.interrupt = c.interrupt := by
  cases x with
  | metadata =>
    cases c with
    | paged c =>
      cases h
      exact Paged.interrupt_metadata connections.service c w
    | streamed c =>
      cases h
      have hm : c.metadata connections.objects w = _ := rfl
      rcases (Streamed.metadata_cases hm).1 with he | ho
      · exact congrArg Streamed.interrupt he
      · exact Streamed.interrupt_opened ho
  | next pages =>
    obtain ⟨⟨r, c₁, w₁⟩, hn, he⟩ := Option.map_eq_some_iff.1 h
    cases he
    cases c with
    | paged c =>
      obtain ⟨⟨r, c₁, w₁⟩, hn, he⟩ := Option.map_eq_some_iff.1 hn
      cases he
      exact Paged.interrupt_next hn
    | streamed c =>
      cases hn
      exact Streamed.interrupt_next connections.objects c w
  | setPageSize n =>
    cases hs : c.setPageSize n with
    | error e =>
      simp only [Cursor.call, hs] at h
      cases h
      rfl
    | ok c₁ =>
      simp only [Cursor.call, hs] at h
      cases h
      rcases exists_of_setPageSize hs with rfl | ⟨p, rfl, rfl⟩
      · rfl
      · rfl
  | clearInterrupt => exact absurd rfl hx

end Cursor

end QueryResults
