import QueryResults.Proofs.Cursor.Interruption
import QueryResults.Proofs.Session.Sound

/-!
# Whom an interrupt reaches

A reader is opened with a token below the root. A call of `interrupt` cancels it, whatever has
happened in the session before: the root it stands below is the one that is cancelled, or was
cancelled by an earlier call. But a reader whose token was renewed has one that stands below no
root, and from then on only the cancelling of this very token interrupts it.

The readers that are reached are interrupted as soon as they would have to wait. One that waits for
a page when `interrupt` is called is interrupted in this call, unless the wait is answered, and so
is one that is loading the columns of a result file. Within the file a wait goes on to its end, and
only the call after it is interrupted.

## Main definitions

* `Floor.Reached`: what a call of `interrupt` means for a reader.

## Main results

* `Floor.interrupt_reaches`: which readers are reached, and what becomes of them.
-/

namespace QueryResults.Session

variable {σ : Type}

namespace Floor

variable {session : Session} {connections : Connections σ} {f : Floor σ} {r : Reader} {k : Nat}

/-- What a call of `interrupt` means for a reader. -/
structure Reached (connections : Connections σ) (f : Floor σ) (r : Reader) : Prop where
  /-- It cancels the token, unless the reader has another one than it was opened with. -/
  token : f.interrupted.world.isCancelled r.token = true ↔
    r.renewed = false ∨ f.world.isCancelled r.token = true
  /-- The next call that would have to wait is interrupted. -/
  next : r.renewed = false → r.cursor.Halted connections f.interrupted.world
  /-- If it comes during a call, the next one after that is, whatever this one answers. -/
  during : r.renewed = false → ∀ x a c w,
    r.cursor.call connections f.world x = some (a, c, w) →
    w.interrupts.root ≠ f.world.interrupts.root →
    w.isCancelled c.interrupt = true ∧ c.Halted connections w
  /-- If it comes while a page is waited for, and the page does not come, the call is
  interrupted. -/
  blocked : r.renewed = false → ∀ c x p c₁ w₁ w₂, r.cursor = .paged c → c.Lacks x →
    c.demand connections.service f.world = some (p, c₁, w₁) →
    connections.service.receive p.ticket w₁ = (none, w₂) →
    w₂.interrupts.root ≠ f.world.interrupts.root →
    ∃ a c' w', r.cursor.call connections f.world x = some (a, c', w') ∧
      a.failure? = some c.interruption
  /-- If it comes while the columns of a result file are loaded, the call is interrupted. -/
  opening : r.renewed = false → ∀ c x, r.cursor = .streamed c → c.Lacks x →
    (c.loadSidecar connections.objects f.world).2.interrupts.root ≠ f.world.interrupts.root →
    ∃ a c' w' e, r.cursor.call connections f.world x = some (a, c', w') ∧
      a.failure? = some e ∧ e.kind = .interrupted

/-- What stands below a root is cancelled once there is another root, unless a call of `interrupt`
is still under way. -/
theorem Sound.isCancelled (hf : f.Sound) (hidle : f.retired = []) (hr : f.reader? k = some r)
    (hn : r.renewed = false) {i : Interrupts}
    (hi : ∃ n, i = Interrupts.interruptAll^[n] f.interrupts)
    (hroot : i.root ≠ f.interrupts.root) : i.isCancelled r.token = true := by
  obtain ⟨n, rfl⟩ := hi
  have hreach := f.tokens.reach_iterate n
  have hne := hf.clear.root_ne (hf.clear.reach hreach) hroot
  refine (hf.below k r hr hn).isCancelled hf.clear (hf.clear.onward hreach) hne fun v hv => ?_
  rw [show f.tokens.retired = [] from hidle] at hv
  cases hv

theorem Sound.reached (hf : f.Sound) (hd : connections.Discreet) (hidle : f.retired = [])
    (hr : f.reader? k = some r) : Reached connections f r := by
  have hinterrupted (hn : r.renewed = false) :
      f.interrupted.world.isCancelled r.token = true := by
    refine hf.isCancelled hidle hr hn ⟨1, rfl⟩ fun he => ?_
    exact Nat.ne_of_gt hf.clear.rootIssued (congrArg Token.number he)
  have hcancelled {w : World σ} (hw : ∃ n, w.interrupts = Interrupts.interruptAll^[n] f.interrupts)
      (hroot : w.interrupts.root ≠ f.interrupts.root) (hn : r.renewed = false) :
      w.isCancelled r.token = true := hf.isCancelled hidle hr hn hw hroot
  refine ⟨⟨fun h => ?_, ?_⟩, fun hn => ?_, fun hn x a c w hcall hroot => ?_,
    fun hn c x p c₁ w₁ w₂ hc hx hdemand hreceive hroot => ?_, fun hn c x hc hx hroot => ?_⟩
  · cases hn : r.renewed with
    | false => exact .inl rfl
    | true =>
      rcases Interrupts.isCancelled_cancel.1 h with hmem | hw
      · -- a token that stands below none is not the root
        rw [Token.line, hf.detached k r hr hn, List.mem_singleton] at hmem
        exact absurd (hmem ▸ List.mem_cons_self) (hf.clear.apart r.token (hf.handed k r hr))
      · exact .inr hw
  · rintro (hn | hw)
    · exact hinterrupted hn
    · exact Interrupts.isCancelled_iterate hw 1
  · exact Cursor.halted (hd.keeps_isCancelled _) (hinterrupted hn)
  · by_cases hx : x = .clearInterrupt
    · subst hx
      simp only [Cursor.call, Cursor.clearInterrupt_eq] at hcall
      cases hcall
      refine absurd ?_ hroot
      simp only [Interrupts.renew]
      split <;> rfl
    · have hw : w.isCancelled c.interrupt = true := by
        rw [Cursor.interrupt_call hx hcall]
        exact hcancelled (Cursor.keeps_call (hd f.interrupts) hx ⟨0, rfl⟩ hcall) hroot hn
      exact ⟨hw, Cursor.halted (hd.keeps_isCancelled _) hw⟩
  · have hw₁ : ∃ n, w₁.interrupts = Interrupts.interruptAll^[n] f.interrupts := by
      rcases (Cursor.Paged.of_demand hdemand).2.2 with rfl | ⟨q, rfl⟩
      · exact ⟨0, rfl⟩
      · exact (hd f.interrupts).service.request q ⟨0, rfl⟩
    have hw₂ : ∃ n, w₂.interrupts = Interrupts.interruptAll^[n] f.interrupts := by
      have hreceived := (hd f.interrupts).service.receive p.ticket hw₁
      rwa [hreceive] at hreceived
    have hw : w₂.isCancelled c.interrupt = true := by
      have hcut := hcancelled hw₂ hroot hn
      rwa [Reader.token, hc] at hcut
    rw [hc]
    exact Cursor.Paged.call_of_unanswered hx hdemand hreceive hw
  · have hw : (c.loadSidecar connections.objects f.world).2.isCancelled c.interrupt = true := by
      have hcut := hcancelled
        (Cursor.Streamed.keeps_loadSidecar (hd f.interrupts).store c ⟨0, rfl⟩) hroot hn
      rwa [Reader.token, hc] at hcut
    rw [hc]
    exact Cursor.Streamed.call_of_unopened hx hw

/-- A call of `interrupt` reaches every reader of the session that still has the token it was opened
with, whatever was done before, and no other: a renewed token is cancelled only if it was before. -/
theorem interrupt_reaches (session : Session) (hd : connections.Discreet) (s : σ)
    (acts : List (Act σ)) (hidle : ((start s).run session connections acts).retired = [])
    (hr : ((start s).run session connections acts).reader? k = some r) :
    Reached connections ((start s).run session connections acts) r :=
  ((sound_start s).run session hd acts).reached hd hidle hr

/-- A desk with a table of three rows. -/
def tableDesk : Desk := { content := .table 3 }

/-- The status of a query that has succeeded. -/
def succeeded : Execution.Status := { handle := "query-1", state := .succeeded }

/-- A reader is opened and interrupted with everything else, and its token is renewed. -/
def renewingActs : List (Act Desk) :=
  [.openResult succeeded, .replace, .strike 0, .call 0 .clearInterrupt]

/-- What is there then. -/
def renewedFloor : Floor Desk := (start tableDesk).run {} Desk.connections renewingActs

/-- Another reader is opened, and goes on to its first row. -/
def readingActs : List (Act Desk) := renewingActs ++ [.openResult succeeded, .call 1 (.next 1)]

/-- What is there then. -/
def readingFloor : Floor Desk := (start tableDesk).run {} Desk.connections readingActs

/-- The second reader is reached, though the first was interrupted and renewed before. -/
theorem interrupt_reaches_second :
    ∃ r, readingFloor.reader? 1 = some r ∧ readingFloor.world.isCancelled r.token = false ∧
      readingFloor.interrupted.world.isCancelled r.token = true := by
  have hbefore : (readingFloor.reader? 1).map (fun r =>
      (r.renewed, readingFloor.world.isCancelled r.token)) = some (false, false) := by cbv
  obtain ⟨r, hr, he⟩ := Option.map_eq_some_iff.1 hbefore
  obtain ⟨hn, hw⟩ := Prod.mk.inj he
  have hreached : Reached Desk.connections readingFloor r :=
    interrupt_reaches {} Desk.discreet_connections tableDesk readingActs (by cbv) hr
  exact ⟨r, hr, hw, hreached.token.2 (.inl hn)⟩

/-- The first reader is not reached once its token is renewed, and its next call is answered. -/
theorem interrupt_missed :
    ∃ r, renewedFloor.interrupted.reader? 0 = some r ∧
      renewedFloor.interrupted.world.isCancelled r.token = false ∧
      (r.cursor.call Desk.connections renewedFloor.interrupted.world (.next 1)).map Prod.fst =
        some (.moved (.ok true)) := by
  have hcalled : (renewedFloor.interrupted.reader? 0).map (fun r =>
      (renewedFloor.interrupted.world.isCancelled r.token,
        (r.cursor.call Desk.connections renewedFloor.interrupted.world (.next 1)).map Prod.fst)) =
      some (false, some (.moved (.ok true))) := by cbv
  obtain ⟨r, hr, he⟩ := Option.map_eq_some_iff.1 hcalled
  exact ⟨r, hr, congrArg Prod.fst he, congrArg Prod.snd he⟩

end Floor

end QueryResults.Session
