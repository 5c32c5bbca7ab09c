import QueryResults.Proofs.Fetcher.Outlook
import QueryResults.Proofs.Reader.Drain
import QueryResults.Proofs.Store.Scripted

/-!
# Readers and fetchers agree

A reader resumes a download by itself, with transfers that have no retries, and learns the end of
the object anew with each of them. A fetcher leaves the resumptions to a single transfer, which
learns the end of the object once. As long as all responses declare the same end, this makes no
difference: both make the same requests, deliver the same bytes and end alike.

## Main definitions

* `Transfer.Progress.EndsAt`: progress in which no other end of the object is known.
* `Transfer.Outlook.Alike`: outlooks that differ at most in the progress made.
* `Reader.Drained.result`: what reading has come to.

## Main results

* `Transfer.saga_endless`: attempts that learn the end anew.
* `Reader.agrees_with_fetcher`.
-/

namespace QueryResults.Download

open Store

variable {σ : Type} {store : Store σ} {location : Location} {total : UInt64}

namespace Transfer

namespace Progress

variable {p : Progress}

/-- The end of the object, if it is known, is as given. -/
def EndsAt (total : UInt64) (p : Progress) : Prop :=
  ∀ finish, p.finish = some finish → finish = total

/-- What becomes of a body says nothing new about the end of the object. -/
theorem finish_consume (body : List Item) (p : Progress) :
    (p.consume location body).progress.finish = p.finish := by
  induction body generalizing p with
  | nil =>
    unfold consume
    split <;> rfl
  | cons i body ih =>
    unfold consume
    split
    · rfl
    · cases i with
      | stall | failure => rfl
      | chunk b =>
        cases b with
        | nil => exact ih p
        | cons b bytes => exact ih (p.pass (b :: bytes))

/-- Whether a failure is noted has nothing to do with the end of the object. -/
theorem endless_noting {p' : Progress} (h : p'.endless = p.endless) (e : Failure) :
    (p'.noting e).endless = (p.noting e).endless :=
  congrArg (fun p : Progress => p.noting e) h

/-- The declared end is the known one, so it does not matter whether it was known. -/
theorem finish_eq {length : Option UInt64} (hp : p.EndsAt total)
    (htotal : length.map (p.delivered + ·) = some total) :
    (p.finish <|> length.map (p.delivered + ·)) = some total := by
  rw [htotal]
  cases h : p.finish with
  | none => rfl
  | some finish => rw [hp finish h]; rfl

/-- A response that declares the known end is accepted alike whether the end is known or not. -/
theorem accept_endless {r : Response} (hp : p.EndsAt total)
    (htotal : r.length.map (p.delivered + ·) = some total) :
    p.endless.accept r = p.accept r := by
  have hnone : (p.endless.finish <|> r.length.map (p.delivered + ·)) = some total := htotal
  unfold accept
  simp only [finish_eq hp htotal]
  simp only [endless, htotal]
  rfl

theorem endsAt_of_accept {p' : Progress} {r : Response} (hp : p.EndsAt total)
    (htotal : r.length.map (p.delivered + ·) = some total) (ha : p.accept r = .ok p') :
    p'.EndsAt total := by
  obtain ⟨rfl, -⟩ := accept_eq_ok ha
  intro finish hf
  exact Option.some.inj (hf.symm.trans (finish_eq hp htotal))

/-- An answer that declares the known end comes to the same whether the end is known or not, and
leaves it as it is known. -/
theorem answered_endless {a : Answer} (hp : p.EndsAt total)
    (hy : Exchange.Declares total ⟨(p.toTransfer location).nextRequest, a⟩) :
    (p.endless.answered location a).mapProgress endless =
        (p.answered location a).mapProgress endless ∧
      (p.answered location a).progress.EndsAt total := by
  cases a with
  | silence => exact ⟨rfl, hp⟩
  | failure e => exact ⟨rfl, hp⟩
  | response r =>
    obtain ⟨length, hl, hend⟩ := hy.length r rfl
    have hsum : p.delivered.toNat + length.toNat = total.toNat :=
      (congrArg (· + length.toNat) (offset_nextRequest (p.toTransfer location))).symm.trans hend
    have hword : p.delivered + length = total := by
      refine UInt64.toNat_inj.1 ?_
      rw [UInt64.toNat_add, hsum]
      exact Nat.mod_eq_of_lt total.toNat_lt
    have htotal : r.length.map (p.delivered + ·) = some total := by
      rw [hl, ← hword]
      rfl
    simp only [answered, accept_endless hp htotal]
    cases ha : p.accept r with
    | error e => exact ⟨rfl, hp⟩
    | ok p' =>
      refine ⟨rfl, ?_⟩
      simp only [EndsAt, finish_consume]
      exact endsAt_of_accept hp htotal ha

end Progress

/-- Outlooks that differ at most in the progress made. -/
structure Outlook.Alike (x y : Outlook σ) : Prop where
  signals : x.signals = y.signals
  state : x.state = y.state

theorem Outlook.Alike.behind {x y : Outlook σ} (h : x.Alike y) (l : List Signal) :
    (x.behind l).Alike (y.behind l) :=
  ⟨congrArg (l ++ ·) h.signals, h.state⟩

/-- Attempts that differ at most in the known end of the object come to the same if what follows
them does. -/
theorem Attempt.conclude_alike {a a' : Attempt} {s : σ}
    {f f' : Option (Failure → Progress → σ → Outlook σ)}
    (h : a'.mapProgress Progress.endless = a.mapProgress Progress.endless)
    (hf : f' = none ↔ f = none)
    (hrest : ∀ g g' e, f = some g → f' = some g' →
      a'.conclude f' s = (g' e a'.progress s).behind (a'.chunks.map .chunk) →
      (g' e a'.progress s).Alike (g e a.progress s)) :
    (a'.conclude f' s).Alike (a.conclude f s) := by
  obtain ⟨chunks, upshot, p⟩ := a
  obtain ⟨chunks', upshot', p'⟩ := a'
  simp only [mapProgress, mk.injEq] at h
  obtain ⟨rfl, rfl, hprogress⟩ := h
  have hresponded : p'.endless.responded = p.endless.responded :=
    congrArg Progress.responded hprogress
  have hfailures : p'.endless.failures = p.endless.failures := congrArg Progress.failures hprogress
  simp only [Progress.endless] at hresponded hfailures
  cases upshot' with
  | completed | stuck => exact ⟨rfl, rfl⟩
  | fellShort e =>
    cases f with
    | none =>
      rw [hf.2 rfl]
      simp only [conclude, hfailures]
      exact ⟨rfl, rfl⟩
    | some g =>
      cases f' with
      | none => cases hf.1 rfl
      | some g' =>
        have hrest := hrest g g' e rfl rfl
        simp only [conclude, hresponded, hfailures] at hrest ⊢
        split <;> rename_i hgive
        · exact ⟨rfl, rfl⟩
        · rw [if_neg hgive] at hrest
          exact (hrest rfl).behind _

/-- Attempts that learn the end of the object anew come to the same as attempts that learn it once,
if all that they are told about it is the same. -/
theorem saga_endless {left : Nat} {p : Progress} {v : σ × List Exchange} (hp : p.EndsAt total)
    (hlog : ∀ y ∈ (saga store.logged location Progress.endless left p.endless v).state.2,
      y.Declares total) :
    (saga store.logged location Progress.endless left p.endless v).Alike
      (saga store.logged location id left p v) := by
  induction left generalizing p v with
  | zero =>
    have hy := hlog _ (mem_saga store location Progress.endless 0 p.endless v)
    exact Attempt.conclude_alike (Progress.answered_endless hp hy).1 Iff.rfl nofun
  | succ left ih =>
    have hy := hlog _ (mem_saga store location Progress.endless (left + 1) p.endless v)
    obtain ⟨hsame, hends⟩ := Progress.answered_endless
      (a := (store.logged.get (p.endless.toTransfer location).nextRequest v).1) hp hy
    rw [saga_eq] at hlog ⊢
    rw [saga_eq]
    refine Attempt.conclude_alike hsame ⟨nofun, nofun⟩ ?_
    rintro g g' e ⟨⟩ ⟨⟩ hconclude
    have hnoting := Progress.endless_noting (congrArg Attempt.progress hsame) e
    simp only [hconclude, Outlook.behind, hnoting] at hlog ⊢
    exact ih (p := Progress.noting _ e) hends hlog

end Transfer

namespace Reader

/-- What reading has come to: all the bytes, or the failure it ended with. -/
def Drained.result (d : Drained) : Except Failure (List UInt8) :=
  match d.failure with
  | some e => .error e
  | none => .ok d.bytes

theorem Drained.verdict_last (d : Drained) : d.last.verdict d.bytes = d.result := by
  obtain ⟨bytes, failure⟩ := d
  cases failure <;> rfl

/-- A reader and a fetcher of the same object with equally many retries agree as long as the reader
is not left hanging and all responses it gets declare the same end of the object. However the
consumer of the fetcher grants demand and receives, by the time it has received the last signal the
fetcher has made the requests of the reader and delivered its bytes, and both have ended alike; and
receiving the whole download gets there. -/
theorem agrees_with_fetcher (location : Location) (settings settings' : Settings.Download)
    (hretries : settings'.maxRetries = settings.maxRetries) {sizes : Nat → Nat}
    (hsizes : ∀ k, 0 < sizes k) {total : UInt64} {s : σ}
    (hdeclares : ∀ y ∈ (ofLocation location settings).exchanges store sizes s,
      y.Declares total) :
    let r := ofLocation location settings
    let f := Fetcher.ofSettings location settings'
    let drained := (r.drain store sizes s).1
    (∀ acts : List Transfer.Act,
      let c := (f.course s).run store acts
      .cancelled ∉ c.events → Transfer.Terminated (Transfer.receivedSignals c.events) →
        Transfer.exchanges c.events = r.exchanges store sizes s ∧
          ∃ chunks : List (List UInt8),
            Transfer.receivedSignals c.events = chunks.map .chunk ++ [drained.last] ∧
              chunks.flatten = drained.bytes) ∧
      f.exchanges store s = r.exchanges store sizes s ∧
      (f.fetchAll store s).1.result = some drained.result := by
  intro r f drained
  obtain ⟨chunks, hsignals, hbytes, hlog⟩ :=
    drain_eq_outlook hsizes location settings s fun y hy => (hdeclares y hy).isSmooth
  have halike : (r.outlook store (s, [])).Alike (f.outlook store s) := by
    have hleft : f.plan.maxRetries = r.retriesLeft := congrArg UInt32.toNat hretries
    rw [Fetcher.outlook, hleft]
    exact Transfer.saga_endless (p := r.account) nofun fun y hy => hdeclares y (hlog ▸ hy)
  have hf : (f.outlook store s).signals = chunks.map .chunk ++ [drained.last] :=
    halike.signals ▸ hsignals
  have hfLog : (f.outlook store s).state.2 = r.exchanges store sizes s := halike.state ▸ hlog
  refine ⟨fun acts hx hlast => ?_, ?_⟩
  · obtain ⟨hreceived, hasked⟩ := Fetcher.course_eq_outlook acts hx hlast
    exact ⟨hasked.trans hfLog, chunks, hreceived.trans hf, hbytes.symm⟩
  · obtain ⟨hresult, hasked⟩ := Fetcher.fetchAll_eq_outlook rfl
      (Fetcher.capacity_pos location settings') (Fetcher.capacity_lt location settings')
      (fun y hy => (hdeclares y (hfLog ▸ hy)).isSmooth) hf drained.isTerminal_last
    rw [← hbytes, drained.verdict_last] at hresult
    exact ⟨hasked.trans hfLog, hresult⟩

/-- A body that breaks off, a failure, and the rest of an object of five bytes. -/
def helloScript : List (Except Failure Turn) :=
  [.ok ⟨some "v1", [[104, 101, 108]], some (.io "Connection reset")⟩,
    .error (.io "Service unavailable"), .ok ⟨none, [[108], [], [111]], none⟩]

/-- Demand for three chunks, time and steps enough for three attempts, and the reception of all
signals. -/
def helloRounds : List Transfer.Act :=
  .request 3 :: (List.replicate 3 (.pass (.ofSeconds 1) :: List.replicate 10 .work)).flatten ++
    [.next, .next, .next, .next]

/-- Here both resume twice at the fourth byte, under the tag of the first response. -/
theorem agrees_with_fetcher_hello :
    let r := ofLocation ⟨"bucket", "hello"⟩ {}
    let f := Fetcher.ofSettings ⟨"bucket", "hello"⟩ {}
    let sizes (k : Nat) := k + 1
    (∀ y ∈ r.exchanges (scripted 5) sizes helloScript, y.Declares 5) ∧
      (r.exchanges (scripted 5) sizes helloScript).map Exchange.request =
        [⟨⟨"bucket", "hello"⟩, none, none⟩, ⟨⟨"bucket", "hello"⟩, some 3, some "v1"⟩,
          ⟨⟨"bucket", "hello"⟩, some 3, some "v1"⟩] ∧
      (r.drain (scripted 5) sizes helloScript).1.result = .ok [104, 101, 108, 108, 111] ∧
      (f.fetchAll (scripted 5) helloScript).1.result = some (.ok [104, 101, 108, 108, 111]) := by
  intro r f sizes
  have hdeclares : ∀ y ∈ r.exchanges (scripted 5) sizes helloScript, y.Declares 5 :=
    forall_exchanges (declares_scripted 5) _ _ _
  obtain ⟨hcourse, -, hwhole⟩ := agrees_with_fetcher ⟨"bucket", "hello"⟩ {} {} rfl
    (fun k => Nat.succ_pos k) hdeclares
  have hsignals : Transfer.receivedSignals
      ((f.course helloScript).run (scripted 5) helloRounds).events =
      [[104, 101, 108], [108], [111]].map .chunk ++ [.complete] := by cbv
  have hcancelled : ((f.course helloScript).run (scripted 5) helloRounds).transfer.cancelled =
      false := by cbv
  obtain ⟨hasked, chunks, hreceived, hbytes⟩ := hcourse helloRounds
    (fun hx => Bool.false_ne_true (hcancelled.symm.trans
      ((f.course_orderly (scripted 5) helloScript helloRounds).cancelled.2 hx)))
    ⟨.complete, hsignals ▸ List.mem_append_right _ (List.mem_singleton_self _), rfl⟩
  obtain ⟨hchunks, hlast⟩ := List.append_inj' (hsignals.symm.trans hreceived) rfl
  have hinj : Function.Injective Signal.chunk := fun _ _ h => by cases h; rfl
  have hresult : (r.drain (scripted 5) sizes helloScript).1.result =
      .ok [104, 101, 108, 108, 111] := by
    rw [← Drained.verdict_last, ← hbytes, ← List.map_injective_iff.2 hinj hchunks,
      ← (List.cons.inj hlast).1]
    rfl
  refine ⟨hdeclares, ?_, hresult, hwhole.trans (congrArg some hresult)⟩
  rw [← hasked]
  cbv

end Reader

end QueryResults.Download
