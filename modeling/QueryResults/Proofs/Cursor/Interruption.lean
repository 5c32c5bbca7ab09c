import QueryResults.Proofs.Cursor.Keeps

/-!
# Calls under a cancelled token

A call that has all it needs is answered, token or not. One that would have to wait is interrupted
at once if the token is cancelled before it begins. If the token is cancelled while a cursor waits
for a page, the wait ends with the page, with the failure of its request or as interrupted, and in
no other way; while the sidecar of a file is loaded, the call ends as interrupted.

## Main definitions

* `Cursor.Answer.failure?`, `Cursor.Call.mayWait`, `Cursor.OnSpot`.
* `Cursor.Halted`: every call that would have to wait is interrupted.
* `Cursor.Paged.Lacks`, `Cursor.Streamed.Lacks`: calls that another page is needed for, and those
  that the cursor has to be opened for.

## Main results

* `Cursor.halted`: under a cancelled token a cursor does not wait.
* `Cursor.Paged.call_of_unanswered`: so is one that waits for a page in vain.
* `Cursor.Streamed.call_of_unopened`: so is one that waits for the sidecar of a file.
-/

namespace QueryResults.Cursor

variable {σ : Type} {connections : Connections σ} {w w₁ w₂ : World σ} {x : Cursor.Call}

/-- The failure that a call answers with. -/
def Answer.failure? : Answer → Option Failure
  | columns (.error e) => some e
  | moved (.error e) => some e
  | resized (.error e) => some e
  | _ => none

/-- Whether a call may have to wait for a service. -/
def Call.mayWait : Call → Bool
  | metadata => true
  | next pages => 0 < pages
  | _ => false

/-- A call is answered on the spot if it asks nothing of the services, whatever they are. -/
def OnSpot (c : Cursor) (w : World σ) (x : Call) : Prop :=
  ∃ a c', ∀ connections : Connections σ, c.call connections w x = some (a, c', w)

/-- Of all calls that may have to wait each is answered on the spot or interrupted. -/
def Halted (connections : Connections σ) (c : Cursor) (w : World σ) : Prop :=
  ∀ x : Call, x.mayWait = true → c.OnSpot w x ∨ ∃ a c' w' e,
    c.call connections w x = some (a, c', w') ∧ a.failure? = some e ∧ e.kind = .interrupted

namespace Paged

variable {service : Service (World σ)} {c c₁ : Paged} {p : Pending}

/-- Calls that another page is needed for. -/
def Lacks (c : Paged) : Cursor.Call → Prop
  | .metadata => c.schema = none
  | .next pages => c.afterLast = false ∧ c.rows = [] ∧ 0 < pages
  | _ => False

/-- With nothing to ask for nothing is loaded, whatever the service. -/
theorem load_of_demand_eq_none (h : c.demand service w = none) (service' : Service (World σ)) :
    c.load service' w = (.ok false, c, w) := by
  have hnone : c.demand service' w = none := by
    unfold demand at h ⊢
    split at h
    · cases h
    · split at h
      · rename_i hdone
        simp only [hdone, if_true]
      · cases h
  rw [load, hnone]

/-- A wait that is not answered, and of which the token is cancelled. -/
theorem load_of_unanswered (hd : c.demand service w = some (p, c₁, w₁))
    (hwait : w₁.isCancelled c.interrupt = true ∨
      ∃ w₂, service.receive p.ticket w₁ = (none, w₂) ∧ w₂.isCancelled c.interrupt = true) :
    ∃ c' w', c.load service w = (.error c.interruption, c', w') := by
  obtain ⟨hhandle, hinterrupt, -⟩ := of_demand hd
  have hfailure : c₁.interruption = c.interruption := by rw [interruption, interruption, hhandle]
  rw [← hinterrupt] at hwait
  rw [load, hd]
  simp only [await]
  by_cases hw₁ : w₁.isCancelled c₁.interrupt = true
  · simp only [hw₁, if_true, hfailure]
    exact ⟨_, _, rfl⟩
  · rcases hwait with hw | ⟨w₂, hr, hw₂⟩
    · exact absurd hw hw₁
    · simp only [hw₁, hr, hw₂, if_true, hfailure]
      exact ⟨_, _, rfl⟩

/-- A call that needs a page fails with the loading of it. -/
theorem call_of_load_eq_error {e : Failure} {c' : Paged} {w' : World σ} (hx : c.Lacks x)
    (hl : c.load connections.service w = (.error e, c', w')) :
    ∃ a, (paged c).call connections w x = some (a, paged c', w') ∧ a.failure? = some e := by
  cases x with
  | metadata =>
    replace hx : c.schema = none := hx
    refine ⟨.columns (.error e), ?_, rfl⟩
    simp only [call, Cursor.metadata, metadata, hx, hl]
  | next pages =>
    obtain ⟨hafter, hrows, hpages⟩ := hx
    refine ⟨.moved (.error e), ?_, rfl⟩
    obtain ⟨pages, rfl⟩ := Nat.exists_eq_succ_of_ne_zero (Nat.ne_of_gt hpages)
    rw [call, Cursor.next, next.eq_def]
    simp only [hafter, hrows, hl, Bool.false_eq_true, if_false, Option.map_some]
  | setPageSize n | clearInterrupt => exact hx.elim

/-- A call that waits for a page in vain while its token is cancelled is interrupted. -/
theorem call_of_unanswered (hx : c.Lacks x)
    (hd : c.demand connections.service w = some (p, c₁, w₁))
    (hr : connections.service.receive p.ticket w₁ = (none, w₂))
    (hw : w₂.isCancelled c.interrupt = true) :
    ∃ a c' w', (paged c).call connections w x = some (a, c', w') ∧
      a.failure? = some c.interruption := by
  obtain ⟨c', w', hl⟩ := load_of_unanswered hd (.inr ⟨w₂, hr, hw⟩)
  obtain ⟨a, hcall, ha⟩ := call_of_load_eq_error hx hl
  exact ⟨a, paged c', w', hcall, ha⟩

/-- A call that no page is needed for is answered on the spot, and so is one for which there is
none. -/
theorem onSpot (service : Service (World σ)) (hx : x.mayWait = true)
    (h : ¬ c.Lacks x ∨ c.demand service w = none) : (paged c).OnSpot w x := by
  cases x with
  | metadata =>
    cases hs : c.schema with
    | some columns =>
      refine ⟨.columns (.ok columns), paged c, fun connections => ?_⟩
      simp only [call, Cursor.metadata, metadata, hs]
    | none =>
      have hnone := h.resolve_left (not_not_intro hs)
      refine ⟨.columns (.error (.invalidState ("No column metadata returned for " ++ c.handle))),
        paged c, fun connections => ?_⟩
      simp only [call, Cursor.metadata, metadata, load_of_demand_eq_none hnone, hs]
  | next pages =>
    have hpages : 0 < pages := of_decide_eq_true hx
    obtain ⟨pages, rfl⟩ := Nat.exists_eq_succ_of_ne_zero (Nat.ne_of_gt hpages)
    cases ha : c.afterLast with
    | true =>
      refine ⟨.moved (.ok false), paged c, fun connections => ?_⟩
      rw [call, Cursor.next, next.eq_def]
      simp only [ha, if_true, Option.map_some]
    | false =>
      cases hrows : c.rows with
      | cons row rows =>
        refine ⟨.moved (.ok true), paged (c.advance row rows), fun connections => ?_⟩
        rw [call, Cursor.next, next.eq_def]
        simp only [ha, hrows, Bool.false_eq_true, if_false, Option.map_some]
      | nil =>
        have hnone := h.resolve_left (not_not_intro ⟨ha, hrows, hpages⟩)
        refine ⟨.moved (.ok false), paged c.finish, fun connections => ?_⟩
        rw [call, Cursor.next, next.eq_def]
        simp only [ha, hrows, load_of_demand_eq_none hnone, Bool.false_eq_true, if_false,
          Option.map_some]
  | setPageSize n | clearInterrupt => cases hx

end Paged

namespace Streamed

variable {store : Store (World σ)} {c : Streamed}

/-- Calls that the cursor has to be opened for. -/
def Lacks (c : Streamed) : Cursor.Call → Prop
  | .metadata => c.schema = none
  | .next _ => c.failed = none ∧ c.afterLast = false ∧ c.schema = none
  | _ => False

theorem checkInterrupt_of_isCancelled (hw : w.isCancelled c.interrupt = true) :
    ∃ e, c.checkInterrupt w = .error e ∧ e.kind = .interrupted :=
  ⟨_, if_pos hw, rfl⟩

/-- The sidecar of a file does not count if the token is cancelled when it has come. -/
theorem opened_of_isCancelled (hschema : c.schema = none)
    (hw : (c.loadSidecar store w).2.isCancelled c.interrupt = true) :
    ∃ e w', c.opened store w = (.error e, c, w') ∧ e.kind = .interrupted := by
  have hstopped : ((Download.Fetcher.ofSettings c.sidecar c.settings).fetchWithin store
      (World.isCancelled · c.interrupt) (.ofMillis c.settings.readTimeout.ceilMillis) w).1 =
        .interrupted := by
    refine Download.Fetcher.fetchWithin_eq_interrupted_iff.2 ?_
    unfold loadSidecar at hw
    simp only at hw
    split at hw <;> exact hw
  obtain ⟨e, w', hload, he⟩ : ∃ e w', c.loadSidecar store w = (.error e, w') ∧
      e.kind = .interrupted := by
    unfold loadSidecar
    simp only [hstopped]
    exact ⟨_, _, rfl, rfl⟩
  refine ⟨e, w', ?_, he⟩
  simp only [opened, hschema, hload]

/-- A call that opens the cursor is interrupted if the token is cancelled meanwhile. -/
theorem call_of_unopened (hx : c.Lacks x)
    (hw : (c.loadSidecar connections.objects w).2.isCancelled c.interrupt = true) :
    ∃ a c' w' e, (streamed c).call connections w x = some (a, c', w') ∧
      a.failure? = some e ∧ e.kind = .interrupted := by
  have hstart (hschema : c.schema = none) : ∃ e w', e.kind = .interrupted ∧
      (c.checkInterrupt w = .error e ∧ w' = w ∨
        c.checkInterrupt w = .ok () ∧ c.opened connections.objects w = (.error e, c, w')) := by
    cases hcheck : c.checkInterrupt w with
    | error e => exact ⟨e, w, (cancelled_of_checkInterrupt hcheck).2, .inl ⟨rfl, rfl⟩⟩
    | ok u =>
      obtain ⟨e, w', hopened, he⟩ := opened_of_isCancelled hschema hw
      exact ⟨e, w', he, .inr ⟨rfl, hopened⟩⟩
  cases x with
  | metadata =>
    replace hx : c.schema = none := hx
    obtain ⟨e, w', he, ⟨hcheck, rfl⟩ | ⟨hcheck, hopened⟩⟩ := hstart hx
    · refine ⟨.columns (.error e), streamed c, w', e, ?_, rfl, he⟩
      simp only [call, Cursor.metadata, metadata, hx, hcheck]
    · refine ⟨.columns (.error e), streamed c, w', e, ?_, rfl, he⟩
      simp only [call, Cursor.metadata, metadata, hx, hcheck, hopened]
  | next pages =>
    obtain ⟨hfailed, hpast, hschema⟩ := hx
    obtain ⟨e, w', he, ⟨hcheck, rfl⟩ | ⟨hcheck, hopened⟩⟩ := hstart hschema
    · refine ⟨.moved (.error e), streamed c, w', e, ?_, rfl, he⟩
      simp only [call, Cursor.next, next, hfailed, hpast, hcheck, Bool.false_eq_true, if_false,
        Option.map_some]
    · refine ⟨.moved (.error e), streamed c, w', e, ?_, rfl, he⟩
      simp only [call, Cursor.next, next, hfailed, hpast, hcheck, hopened, Bool.false_eq_true,
        if_false, Option.map_some]
  | setPageSize n | clearInterrupt => exact hx.elim

end Streamed

/-- Under a cancelled token the next call that would have to wait is interrupted. -/
theorem halted {c : Cursor} (hk : connections.Keeps fun w => w.isCancelled c.interrupt = true)
    (hw : w.isCancelled c.interrupt = true) : c.Halted connections w := by
  intro x hx
  cases c with
  | paged c =>
    by_cases hlacks : c.Lacks x
    · cases hd : c.demand connections.service w with
      | none => exact .inl (Paged.onSpot _ hx (.inr hd))
      | some y =>
        obtain ⟨p, c₁, w₁⟩ := y
        have hw₁ : w₁.isCancelled c.interrupt = true := by
          rcases (Paged.of_demand hd).2.2 with rfl | ⟨r, rfl⟩
          · exact hw
          · exact hk.service.request r hw
        obtain ⟨c', w', hl⟩ := Paged.load_of_unanswered hd (.inl hw₁)
        obtain ⟨a, hcall, ha⟩ := Paged.call_of_load_eq_error hlacks hl
        exact .inr ⟨a, paged c', w', _, hcall, ha, rfl⟩
    · exact .inl (Paged.onSpot connections.service hx (.inl hlacks))
  | streamed c =>
    obtain ⟨e, hcheck, he⟩ := Streamed.checkInterrupt_of_isCancelled hw
    cases x with
    | metadata =>
      cases hs : c.schema with
      | some columns =>
        refine .inl ⟨.columns (.ok columns), streamed c, fun connections => ?_⟩
        simp only [call, metadata, Streamed.metadata, hs]
      | none =>
        refine .inr ⟨.columns (.error e), streamed c, w, e, ?_, rfl, he⟩
        simp only [call, metadata, Streamed.metadata, hs, hcheck]
    | next pages =>
      cases hf : c.failed with
      | some e =>
        refine .inl ⟨.moved (.error e.repeated), streamed c, fun connections => ?_⟩
        simp only [call, next, Streamed.next, hf, Option.map_some]
      | none =>
        cases ha : c.afterLast with
        | true =>
          refine .inl ⟨.moved (.ok false), streamed c, fun connections => ?_⟩
          simp only [call, next, Streamed.next, hf, ha, if_true, Option.map_some]
        | false =>
          refine .inr ⟨.moved (.error e), streamed c, w, e, ?_, rfl, he⟩
          simp only [call, next, Streamed.next, hf, ha, hcheck, Bool.false_eq_true, if_false,
            Option.map_some]
    | setPageSize n | clearInterrupt => cases hx

end QueryResults.Cursor
