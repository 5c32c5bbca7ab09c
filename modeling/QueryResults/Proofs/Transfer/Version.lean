import QueryResults.Proofs.Store.Version
import QueryResults.Proofs.Transfer.Outlook

/-!
# Transfers that stay with one version

A transfer knows of the exchanges it has made exactly what they tell: the tag and the end of the
object, and what all exchanges but the last fell short by. Where its task stands tells what has come
of the last one: while a body is read, the last response was accepted and its chunks so far have
been taken; a failure it is about to close with is what the last exchange fell short by, the
completion rests on an accepted response, and a task that has broken down has met an exchange that
overruns.

Every step keeps this (`Recalls.transition`), with any store whatever.

## Main definitions

* `Progress.Knows`, `Reads`, `Completes`, `Grounded`: what progress, a body and a signal have to do
  with the exchanges made.
* `Transfer.Recalls`: a transfer and the exchanges it has made.

## Main results

* `Recalls.transition`: what a step of the task keeps.
* `Recalls.of_findsChange`: where the task stands once a change has been found.
-/

namespace QueryResults.Download.Transfer

open Store

variable {σ : Type} {store : Store σ} {t t' : Transfer} {v v' : σ × List Exchange}
  {known : Option String} {earlier own own' done : List Exchange} {x : Exchange} {e : Failure}

/-! ### Transfers and their exchanges -/

/-- Progress that has taken some exchanges into account. -/
structure Progress.Knows (known : Option String) (own : List Exchange) (p : Progress) : Prop where
  etag : p.etag = tagAfter known own
  finish : p.finish.map UInt64.toNat = endAfter own

/-- The last of the exchanges is the one whose body is read, down to what is left of it. -/
def Reads (own : List Exchange) (t : Transfer) (left : List Item) : Prop :=
  ∃ done x r, ∃ taken : List (List UInt8),
    own = done ++ [x] ∧ Noted done t.progress.failures ∧ x.accepted = some r ∧
    r.body = taken.map .chunk ++ left ∧
    t.progress.delivered = x.offset + .ofNat taken.flatten.length ∧
    x.request.location = t.plan.location

/-- The last of the exchanges was accepted, and either the declared end is reached or none was
declared and all of the body was taken. -/
def Completes (own : List Exchange) (p : Progress) : Prop :=
  ∃ done x r, own = done ++ [x] ∧ Noted done p.failures ∧ x.accepted = some r ∧
    ((∃ finish, endAfter own = some finish ∧ finish ≤ p.delivered.toNat) ∨
      endAfter own = none ∧ ∃ taken : List (List UInt8), r.body = taken.map .chunk ∧
        p.delivered = x.offset + .ofNat taken.flatten.length)

/-- The last of the exchanges was accepted, but it overruns. -/
def Breaks (own : List Exchange) (t : Transfer) : Prop :=
  ∃ done x r, own = done ++ [x] ∧ Noted done t.progress.failures ∧ x.accepted = some r ∧
    x.Overruns ∧ x.request.location = t.plan.location

/-- What a signal rests on: a chunk on an accepted response, the completion on the end of the
object, a failure on what the last exchange fell short by. -/
def Grounded (own : List Exchange) (p : Progress) : Signal → Prop
  | .chunk b => b ≠ [] ∧ ∃ x ∈ own, ∃ r, x.accepted = some r ∧ .chunk b ∈ r.body
  | .complete => Completes own p
  | .failed e => GivesUp own e ∧ e.suppressed = p.failures

/-- What chunks rest on stays when more exchanges are made. -/
theorem grounded_mono {p : Progress} {l : List Signal} (h : ∀ x ∈ l, Grounded own p x)
    (hl : ¬Terminated l) (hsub : own ⊆ own') (p' : Progress) : ∀ x ∈ l, Grounded own' p' x := by
  intro x hx
  cases x with
  | chunk b =>
    obtain ⟨hne, y, hy, hr⟩ := h _ hx
    exact ⟨hne, y, hsub hy, hr⟩
  | complete | failed => exact absurd ⟨_, hx, rfl⟩ hl

/-- Where the task of a transfer stands with the exchanges it has made. -/
def Phase.Recalls (known : Option String) (own : List Exchange) (t : Transfer) : Phase → Prop
  | .opening | .pausing _ => t.progress.Knows known own ∧ Noted own t.progress.failures
  | .awaiting answer =>
    ∃ done, own = done ++ [⟨t.nextRequest, answer⟩] ∧ t.progress.Knows known done ∧
      Noted done t.progress.failures
  | .reading body => t.progress.Knows known own ∧ t.Reads own body
  | .offering bytes body =>
    t.progress.Knows known own ∧ t.Reads own (.chunk bytes :: body) ∧ bytes ≠ []
  | .closing last => t.progress.Knows known own ∧ Grounded own t.progress last
  | .ended => t.cancelled = true ∨ t.progress.Knows known own
  | .lost => t.progress.etag = tagAfter known own ∧ t.Breaks own

/-- A transfer that began under a tag, if one was known, and the exchanges it has made. -/
structure Recalls (known : Option String) (own : List Exchange) (t : Transfer) : Prop where
  versioned : Versioned known own
  phase : t.phase.Recalls known own t
  channel : ∀ x ∈ t.channel, Grounded own t.progress x

theorem Reads.ended (h : t.Reads own []) : ∃ done x r, own = done ++ [x] ∧
    Noted done t.progress.failures ∧ x.accepted = some r ∧
    ∃ taken : List (List UInt8), r.body = taken.map .chunk ∧
      t.progress.delivered = x.offset + .ofNat taken.flatten.length := by
  obtain ⟨done, x, r, taken, hown, hnoted, hr, hbody, hd, -⟩ := h
  exact ⟨done, x, r, hown, hnoted, hr, taken, by rw [hbody, List.append_nil], hd⟩

/-- The body that is read is that of an accepted response, and the chunk offered is one of its. -/
theorem Reads.exists_accepted {left : List Item} (h : t.Reads own left) :
    ∃ done x r, own = done ++ [x] ∧ x.accepted = some r ∧ ∀ i ∈ left, i ∈ r.body := by
  obtain ⟨done, x, r, taken, hown, -, hr, hbody, -⟩ := h
  exact ⟨done, x, r, hown, hr, fun i hi => hbody ▸ List.mem_append_right _ hi⟩

/-- Taking a chunk from a body. -/
theorem Reads.taken {left : List Item} {bytes : List UInt8} (h : t.Reads own (.chunk bytes :: left))
    (hp : t'.plan = t.plan) (hf : t'.progress.failures = t.progress.failures)
    (hd : t'.progress.delivered = t.progress.delivered + .ofNat bytes.length) :
    t'.Reads own left := by
  obtain ⟨done, x, r, taken, hown, hnoted, hr, hbody, hdelivered, hl⟩ := h
  refine ⟨done, x, r, taken ++ [bytes], hown, hf ▸ hnoted, hr, by simp [hbody], ?_, hp ▸ hl⟩
  rw [hd, hdelivered, List.flatten_append, List.length_append, UInt64.ofNat_add, UInt64.add_assoc]
  simp

/-- A body holds a chunk that ends behind the range of words. -/
theorem Reads.breaks {left : List Item} {bytes : List UInt8}
    (h : t.Reads own (.chunk bytes :: left)) (hf : t.progress.reaches bytes = false) :
    t.Breaks own := by
  obtain ⟨done, x, r, taken, hown, hn, hr, hbody, hd, hl⟩ := h
  refine ⟨done, x, r, hown, hn, hr, ⟨r, Exchange.answer_of_accepted hr, .inr ?_⟩, hl⟩
  have hle : UInt64.size ≤ t.progress.delivered.toNat + bytes.length :=
    Nat.not_lt.1 (of_decide_eq_false hf)
  have hreached : t.progress.delivered.toNat ≤ x.request.offset + taken.flatten.length := by
    rw [hd, UInt64.toNat_add, UInt64.toNat_ofNat', Nat.add_mod_mod, x.toNat_offset]
    exact Nat.mod_le _ _
  have hbytes : r.bytes = taken.flatten ++ bytes ++ left.flatMap Item.bytes := by
    simp [Response.bytes, hbody, List.flatMap_def, Function.comp_def, Item.bytes]
  rw [hbytes, List.length_append, List.length_append]
  omega

namespace Progress.Knows

variable {p p' : Progress}

theorem congr (h : p.Knows known own) (he : p'.etag = p.etag) (hf : p'.finish = p.finish) :
    p'.Knows known own :=
  ⟨he.trans h.etag, hf ▸ h.finish⟩

/-- An end that is known is the one told. -/
theorem endAfter_eq (h : p.Knows known own) {finish : UInt64} (hf : p.finish = some finish) :
    endAfter own = some finish.toNat := by
  rw [← h.finish, hf]
  rfl

/-- Where no end is known, none is told. -/
theorem endAfter_eq_none (h : p.Knows known own) (hf : p.finish = none) : endAfter own = none := by
  rw [← h.finish, hf]
  rfl

/-- An exchange without an accepted response tells nothing. -/
theorem snoc_of_accepted (h : p.Knows known own) (hx : x.accepted = none) :
    p.Knows known (own ++ [x]) where
  etag := h.etag.trans (tagAfter_snoc_of_accepted known own hx).symm
  finish := h.finish.trans (endAfter_snoc_of_accepted own hx).symm

end Progress.Knows

/-! ### Requests and answers -/

/-- The next request asks for what is missing from the offset reached on. -/
theorem offset_ask (t : Transfer) (a : Answer) :
    (⟨t.nextRequest, a⟩ : Exchange).offset = t.progress.delivered := by
  unfold Exchange.offset nextRequest
  by_cases h : t.progress.delivered = 0 <;> simp [h]

theorem located_ask (t : Transfer) (a : Answer) (e : Failure) :
    t.located e =
      (⟨t.nextRequest, a⟩ : Exchange).located (⟨t.nextRequest, a⟩ : Exchange).offset e := by
  rw [offset_ask]
  rfl

/-- A transfer accepts the responses that are accepted in the exchange with the store. -/
theorem accepted_of_accept {p : Progress} {r : Response} (ha : t.progress.accept r = .ok p) :
    (⟨t.nextRequest, .response r⟩ : Exchange).accepted = some r := by
  obtain ⟨-, htag⟩ := accept_eq_ok ha
  simp only [Exchange.accepted, nextRequest]
  split
  · rename_i expected actual hp hr
    rw [if_pos (htag expected actual hp hr)]
  · rfl

/-- The tag known after an accepted response is the one that the exchange tells. -/
theorem etag_of_accept {p : Progress} {r : Response} (h : t.progress.Knows known own)
    (ha : t.progress.accept r = .ok p) :
    p.etag = tagAfter known (own ++ [⟨t.nextRequest, .response r⟩]) := by
  have haccepted := accepted_of_accept ha
  obtain ⟨rfl, -⟩ := accept_eq_ok ha
  rw [tagAfter_snoc, Exchange.tag, haccepted, ← h.etag]
  rfl

/-- What a transfer knows after an accepted response whose end fits in a word is what the exchange
tells. -/
theorem knows_of_accept {p : Progress} {r : Response} (h : t.progress.Knows known own)
    (ha : t.progress.accept r = .ok p) (hf : t.progress.fits r = true) :
    p.Knows known (own ++ [⟨t.nextRequest, .response r⟩]) := by
  refine ⟨etag_of_accept h ha, ?_⟩
  have haccepted := accepted_of_accept ha
  obtain ⟨rfl, -⟩ := accept_eq_ok ha
  rw [endAfter_snoc, Exchange.finish, haccepted, ← h.finish]
  cases hfinish : t.progress.finish with
  | some finish => rfl
  | none =>
    cases hn : r.length with
    | none => simp [hn]
    | some n =>
      have hlt : t.progress.delivered.toNat + n.toNat < UInt64.size := by
        simpa [Progress.fits, hfinish, hn] using hf
      simp [hn, offset_nextRequest, UInt64.toNat_add, Nat.mod_eq_of_lt hlt]

/-- A transfer rejects a response because of its tag, and says so. -/
theorem exists_of_reject {r : Response} (ha : t.progress.accept r = .error e) :
    ∃ expected actual, t.progress.etag = some expected ∧ r.etag = some actual ∧
      expected ≠ actual ∧ e = .preconditionFailed s!"ETag changed from {expected} to {actual}" := by
  obtain ⟨-, expected, actual, hp, hr, hne⟩ := accept_eq_error ha
  simp only [Progress.accept, hp, hr, if_neg hne] at ha
  exact ⟨expected, actual, hp, hr, hne, (Except.error.inj ha).symm⟩

/-- What a transfer falls short by when it rejects a response. -/
theorem fallsShort_of_reject {r : Response} (ha : t.progress.accept r = .error e) :
    (⟨t.nextRequest, .response r⟩ : Exchange).accepted = none ∧
      (⟨t.nextRequest, .response r⟩ : Exchange).FallsShort (t.located e) := by
  obtain ⟨expected, actual, hp, hr, hne, rfl⟩ := exists_of_reject ha
  refine ⟨Exchange.accepted_of_ne rfl hp hr hne, ?_⟩
  rw [located_ask t (.response r)]
  exact .changed rfl hp hr hne

/-- A task that has an answer before it goes on. -/
theorem step_ne_none_of_awaiting {s : σ} {a : Answer} (hc : t.cancelled = false)
    (hp : t.phase = .awaiting a) (ha : a ≠ .silence) : t.step store s ≠ none := by
  cases a with
  | silence => exact absurd rfl ha
  | failure e => simp [step, advance, hp, hc]
  | response r =>
    cases hr : t.progress.accept r with
    | error e => simp [step, advance, hp, hc, hr]
    | ok p => cases hf : t.progress.fits r <;> simp [step, advance, hp, hc, hr, hf]

/-! ### Steps of the task -/

/-- What the task concludes from an exchange that fell short. -/
theorem recalls_retry (hk : t.progress.Knows known (done ++ [x]))
    (hn : Noted done t.progress.failures) (hx : x.FallsShort e) :
    (t.retry e).phase.Recalls known (done ++ [x]) (t.retry e) := by
  unfold retry
  split
  · exact ⟨hk, .intro hn hx hx.suppressed, by simp [hx.suppressed]⟩
  · rename_i hgo
    exact ⟨hk.congr rfl rfl, hn.snoc hx fun hkind => hgo (.inl hkind)⟩

/-- Before the store has answered once, no failure was noted. -/
theorem recalls_refused (hc : t.Coherent) (hk : t.progress.Knows known (done ++ [x]))
    (hn : Noted done t.progress.failures) (hx : x.FallsShort (t.located e)) :
    (t.refused e).phase.Recalls known (done ++ [x]) (t.refused e) := by
  unfold refused
  split
  · exact recalls_retry hk hn hx
  · rename_i hr
    have hnone := hc.failures (Bool.eq_false_iff.2 hr)
    have hgives := GivesUp.intro hn hx hx.suppressed
    rw [hnone, Failure.withSuppressed_nil] at hgives
    exact ⟨hk, hgives, hx.suppressed.trans hnone.symm⟩

/-- What the task concludes from a body that has ended. -/
theorem recalls_bodyEnded (hk : t.progress.Knows known own) (hreads : t.Reads own []) :
    t.bodyEnded.phase.Recalls known own t.bodyEnded := by
  obtain ⟨done, x, r, hown, hnoted, hr, taken, hbody, hd⟩ := hreads.ended
  unfold bodyEnded
  split
  · rename_i finish hfinish
    split
    · rename_i hlt
      obtain ⟨done', x', r', taken', hown', -, hr', hbody', hd', hl⟩ := hreads
      obtain ⟨rfl, hx⟩ := List.append_inj' (hown.symm.trans hown') rfl
      obtain rfl := (List.cons.inj hx).1
      rw [hown] at hk ⊢
      refine recalls_retry hk hnoted ?_
      exact .cutShort hr hbody hl.symm hd hlt
    · rename_i hle
      refine ⟨hk, done, x, r, hown, hnoted, hr, .inl ⟨_, hk.endAfter_eq hfinish, ?_⟩⟩
      exact UInt64.le_iff_toNat_le.1 (UInt64.not_lt.1 hle)
  · rename_i hnone
    exact ⟨hk, done, x, r, hown, hnoted, hr,
      .inr ⟨hk.endAfter_eq_none hnone, taken, hbody, hd⟩⟩

namespace Recalls

theorem start (plan : Plan) (offset : UInt64) (known : Option String) :
    (start plan offset known).Recalls known [] where
  versioned := .nil
  phase := ⟨⟨(tagAfter_nil known).symm, rfl⟩, .nil⟩
  channel := nofun

/-- The signals of a task that has not ended are chunks, and what these rest on stays. -/
theorem grounded (h : t.Recalls known own) (hc : t.Coherent) (hp : t.phase ≠ .ended)
    (hsub : own ⊆ own') (p : Progress) : ∀ x ∈ t.channel, Grounded own' p x :=
  grounded_mono h.channel (fun hx => hp (hc.ended hx)) hsub p

/-- A task that goes on with the same exchanges. -/
theorem withPhase (h : t.Recalls known own) (hc : t.Coherent) (hp : t.phase ≠ .ended)
    (hch : t'.channel = t.channel) (hph : t'.phase.Recalls known own t') :
    t'.Recalls known own where
  versioned := h.versioned
  phase := hph
  channel := hch ▸ h.grounded hc hp (List.Subset.refl _) _

/-- The request that a task makes is made under the tag it knows. -/
theorem ask (h : t.Recalls known own) (hc : t.Coherent) (hp : t.phase = .opening)
    (answer : Answer) :
    ({ t with phase := .awaiting answer } : Transfer).Recalls known
      (own ++ [⟨t.nextRequest, answer⟩]) := by
  have hphase := h.phase
  rw [hp] at hphase
  exact
    { versioned := h.versioned.snoc hphase.1.etag
      phase := ⟨own, rfl, hphase.1, hphase.2⟩
      channel := h.grounded hc (by rw [hp]; exact nofun) (List.subset_append_left _ _) _ }

/-- What the signals rest on once the chunk that is offered is handed over. -/
theorem grounded_hand (h : t.Recalls known own) (hc : t.Coherent) {bytes : List UInt8}
    {body : List Item} (hp : t.phase = .offering bytes body) (p : Progress) :
    ∀ y ∈ t.channel ++ [.chunk bytes], Grounded own p y := by
  have hphase := h.phase
  rw [hp] at hphase
  obtain ⟨-, hreads, hne⟩ := hphase
  obtain ⟨done, x, r, rfl, hr, hbody⟩ := hreads.exists_accepted
  intro y hy
  rcases List.mem_append.1 hy with hy | hy
  · exact h.grounded hc (by rw [hp]; exact nofun) (List.Subset.refl _) p y hy
  · obtain rfl := List.mem_singleton.1 hy
    exact ⟨hne, x, by simp, r, hr, hbody _ List.mem_cons_self⟩

/-- Handing over the chunk that is offered. -/
theorem hand (h : t.Recalls known own) (hc : t.Coherent) {bytes : List UInt8} {body : List Item}
    (hp : t.phase = .offering bytes body) :
    ({ t with
        channel := t.channel ++ [.chunk bytes]
        progress := t.progress.afterChunk bytes
        phase := .reading body } : Transfer).Recalls known own := by
  have hphase := h.phase
  rw [hp] at hphase
  obtain ⟨hk, hreads, -⟩ := hphase
  exact ⟨h.versioned, ⟨hk.congr rfl rfl, hreads.taken rfl rfl rfl⟩, h.grounded_hand hc hp _⟩

/-- Breaking down behind the chunk that is offered. -/
theorem overrun (h : t.Recalls known own) (hc : t.Coherent) {bytes : List UInt8}
    {body : List Item} (hp : t.phase = .offering bytes body)
    (hf : t.progress.reaches bytes = false) :
    ({ t with
        channel := t.channel ++ [.chunk bytes]
        progress := t.progress.afterChunk bytes
        phase := .lost } : Transfer).Recalls known own := by
  have hphase := h.phase
  rw [hp] at hphase
  obtain ⟨hk, hreads, -⟩ := hphase
  exact ⟨h.versioned, ⟨hk.etag, hreads.breaks hf⟩, h.grounded_hand hc hp _⟩

/-- Handing over the last signal. -/
theorem close (h : t.Recalls known own) (hc : t.Coherent) {last : Signal}
    (hp : t.phase = .closing last) :
    ({ t with channel := t.channel ++ [last], phase := .ended } : Transfer).Recalls known own := by
  have hphase := h.phase
  rw [hp] at hphase
  refine ⟨h.versioned, .inr hphase.1, fun y hy => ?_⟩
  rcases List.mem_append.1 hy with hy | hy
  · exact h.grounded hc (by rw [hp]; exact nofun) (List.Subset.refl _) _ y hy
  · exact List.mem_singleton.1 hy ▸ hphase.2

/-- A step of the task: what it asks for is added to the exchanges, and the transfer knows of them
what they tell. -/
theorem transition (h : t.Recalls known own) (hc : t.Coherent) (hv : v.2 = earlier ++ own)
    (ht : Transition store.logged t v t' v') :
    ∃ own', v'.2 = earlier ++ own' ∧ t'.Recalls known own' := by
  have hne := phase_ne_ended_of_transition ht
  have hphase := h.phase
  cases ht with
  | stop hcancelled =>
    exact ⟨own, hv, h.withPhase hc hne rfl (.inl hcancelled)⟩
  | ask _ hp =>
    refine ⟨_, ?_, h.ask hc hp _⟩
    rw [← List.append_assoc, ← hv]
    rfl
  | @fail e _ hp =>
    rw [hp] at hphase
    obtain ⟨done, rfl, hk, hn⟩ := hphase
    refine ⟨_, hv, h.withPhase hc hne (concluded_refused t _).channel_eq ?_⟩
    refine recalls_refused hc (hk.snoc_of_accepted (Exchange.accepted_of_failure rfl)) hn ?_
    rw [located_ask t (.failure e)]
    exact .refused rfl
  | @overflow r p _ hp ha hf =>
    rw [hp] at hphase
    obtain ⟨done, rfl, hk, hn⟩ := hphase
    have hoverruns : Exchange.Overruns ⟨t.nextRequest, .response r⟩ := by
      by_contra hno
      cases (fits_of_not_overruns hno).symm.trans hf
    have htag := etag_of_accept hk ha
    exact ⟨_, hv, h.withPhase hc hne rfl
      ⟨htag, done, _, r, rfl, hn, accepted_of_accept ha, hoverruns, rfl⟩⟩
  | accept _ hp ha hf =>
    rw [hp] at hphase
    obtain ⟨done, rfl, hk, hn⟩ := hphase
    have haccepted := accepted_of_accept ha
    have hk' := knows_of_accept hk ha hf
    obtain ⟨rfl, -⟩ := accept_eq_ok ha
    refine ⟨_, hv, h.withPhase hc hne rfl ⟨hk', done, _, _, [], rfl, hn, haccepted, rfl, ?_, rfl⟩⟩
    rw [offset_ask]
    simp
  | reject _ hp ha =>
    rw [hp] at hphase
    obtain ⟨done, rfl, hk, hn⟩ := hphase
    obtain ⟨hnone, hx⟩ := fallsShort_of_reject ha
    refine ⟨_, hv, h.withPhase hc hne (concluded_refused t _).channel_eq ?_⟩
    exact recalls_refused hc (hk.snoc_of_accepted hnone) hn hx
  | reach _ hp hd =>
    rw [hp] at hphase
    obtain ⟨hk, done, x, r, taken, hown, hn, hr, -⟩ := hphase
    refine ⟨own, hv, h.withPhase hc hne rfl ⟨hk, done, x, r, hown, hn, hr, .inl ?_⟩⟩
    unfold Progress.isComplete at hd
    split at hd
    · rename_i finish hfinish
      exact ⟨_, hk.endAfter_eq hfinish, UInt64.le_iff_toNat_le.1 (of_decide_eq_true hd)⟩
    · cases hd
  | finish _ hp hd hn =>
    rw [hp] at hphase
    refine ⟨own, hv, h.withPhase hc hne (concluded_bodyEnded t.gathered).channel_eq ?_⟩
    exact recalls_bodyEnded (hphase.1.congr rfl rfl) hphase.2
  | breakOff _ hp hd hn =>
    rw [hp] at hphase
    obtain ⟨hk, done, x, r, taken, rfl, hnoted, hr, hbody, hdelivered, hl⟩ := hphase
    refine ⟨_, hv, h.withPhase hc hne (concluded_retry t.gathered _).channel_eq ?_⟩
    refine recalls_retry (hk.congr rfl rfl) hnoted ?_
    simp only [located, hdelivered, ← hl]
    exact .brokenOff ⟨r, _, hr, hbody⟩
  | skip _ hp hd hn =>
    rw [hp] at hphase
    refine ⟨own, hv, h.withPhase hc hne rfl ⟨hphase.1.congr rfl rfl, ?_⟩⟩
    exact hphase.2.taken rfl rfl (by simp [Transfer.gathered])
  | take _ hp hd hn =>
    rw [hp] at hphase
    exact ⟨own, hv, h.withPhase hc hne rfl ⟨hphase.1.congr rfl rfl, hphase.2, List.cons_ne_nil _ _⟩⟩
  | hand _ hp hr hf => exact ⟨own, hv, h.hand hc hp⟩
  | overrun _ hp hr hf => exact ⟨own, hv, h.overrun hc hp hf⟩
  | wake _ hp hl =>
    rw [hp] at hphase
    exact ⟨own, hv, h.withPhase hc hne rfl hphase⟩
  | close _ hp hr => exact ⟨own, hv, h.close hc hp⟩

/-! ### Time and the consumer -/

/-- Time that passes changes nothing in what a transfer knows. -/
theorem lapse (h : t.Recalls known own) (span : Duration) : (t.lapse span).Recalls known own := by
  have hphase := h.phase
  unfold Transfer.lapse
  split
  · rename_i left hp
    rw [hp] at hphase
    exact ⟨h.versioned, hphase, h.channel⟩
  · exact h

theorem grant (h : t.Recalls known own) (n : UInt64) : (t.grant n).Recalls known own :=
  ⟨h.versioned, h.phase, h.channel⟩

theorem next (h : t.Recalls known own) {y : Receipt} (hn : t.next = (y, t')) :
    t'.Recalls known own := by
  cases y with
  | signal y =>
    obtain ⟨rest, hch, rfl⟩ := next_eq_signal hn
    exact ⟨h.versioned, h.phase, fun z hz => h.channel z (hch ▸ List.mem_cons_of_mem _ hz)⟩
  | _ =>
    obtain ⟨closed, rfl⟩ := next_eq_of_not_signal hn nofun
    exact ⟨h.versioned, h.phase, h.channel⟩

theorem cancel (h : t.Recalls known own) : t.cancel.Recalls known own := by
  refine ⟨h.versioned, ?_, h.channel⟩
  have hphase := h.phase
  change t.phase.Recalls known own t.cancel
  cases hp : t.phase with
  | ended => exact .inl rfl
  | _ =>
    rw [hp] at hphase
    exact hphase

/-! ### Once a change has been found -/

/-- The only exchange that can have shown a change is the last one. -/
theorem eq_of_findsChange {failures : List Failure} {y : Exchange} (hn : Noted done failures)
    (hx : x ∈ done ++ [y]) (hchange : x.FindsChange) : x = y := by
  rcases List.mem_append.1 hx with hx | hx
  · exact absurd (.atOnce hchange) (hn.not_reportsChange hx)
  · exact List.mem_singleton.1 hx

/-- No signal but that change rests on exchanges of which one has shown it, apart from chunks of
accepted responses. -/
theorem failed_of_findsChange {p : Progress} {y : Signal} (h : Grounded own p y)
    (hy : y.isTerminal = true) (hx : x ∈ own) (hchange : x.FindsChange) :
    ∃ e, y = .failed e ∧ GivesUp own e ∧ e.kind = .preconditionFailed := by
  cases y with
  | chunk b => cases hy
  | failed e => exact ⟨e, rfl, h.1, (h.1.of_reportsChange hx (.atOnce hchange)).2⟩
  | complete =>
    obtain ⟨done, z, r, rfl, hn, hr, -⟩ := h
    rw [← eq_of_findsChange hn hx hchange, hchange.accepted] at hr
    cases hr

/-- Once a change has been found, the task has the answer still before it, or is about to close with
that change, or has ended. -/
theorem of_findsChange (h : t.Recalls known own) (hc : t.Coherent) (hx : x ∈ own)
    (hchange : x.FindsChange) :
    t.phase = .awaiting x.answer ∨
      (∃ e, t.phase = .closing (.failed e) ∧ GivesUp own e ∧ e.kind = .preconditionFailed) ∨
      t.phase = .ended := by
  have hphase := h.phase
  have unread {left : List Item} (hr : t.Reads own left) : False := by
    obtain ⟨done, y, r, taken, rfl, hn, hr, -⟩ := hr
    rw [← eq_of_findsChange hn hx hchange, hchange.accepted] at hr
    cases hr
  cases hp : t.phase with
  | ended => exact .inr (.inr rfl)
  | lost =>
    rw [hp] at hphase
    obtain ⟨-, done, y, r, rfl, hn, hr, -⟩ := hphase
    rw [← eq_of_findsChange hn hx hchange, hchange.accepted] at hr
    cases hr
  | opening | pausing =>
    rw [hp] at hphase
    exact absurd (.atOnce hchange) (hphase.2.not_reportsChange hx)
  | awaiting answer =>
    rw [hp] at hphase
    obtain ⟨done, rfl, -, hn⟩ := hphase
    rw [eq_of_findsChange hn hx hchange]
    exact .inl rfl
  | reading body =>
    rw [hp] at hphase
    exact (unread hphase.2).elim
  | offering bytes body =>
    rw [hp] at hphase
    exact (unread hphase.2.1).elim
  | closing last =>
    rw [hp] at hphase
    obtain ⟨e, rfl, hgives, hkind⟩ :=
      failed_of_findsChange hphase.2 (hc.closing _ hp) hx hchange
    exact .inr (.inl ⟨e, rfl, hgives, hkind⟩)

end Recalls

end QueryResults.Download.Transfer
