import QueryResults.Proofs.Fetcher.Reconstruction
import QueryResults.Proofs.Http.Server

/-!
# Downloads over HTTP

A download goes through three layers: requests are repeated until they are answered, an answer is
handed on as that of an object store, and the transfer keeps the offset. A request that was
served has been served by one attempt, and the attempt asked for what the store was asked for. If
the server honours ranges, the store therefore serves the object, and downloads are exact.

No layer looks at which of the two successful statuses a resumed request was answered with. From a
server that ignores ranges, the whole object is taken for the rest of it.

## Main results

* `Http.execute_eq_ok`: a served request was served by one of its attempts.
* `Http.serves_objectStore`: with a server that honours ranges, the store serves the object.
* `Http.download_exact`: what a download delivers in any course.
* `Http.download_ignored`: what comes of a server that ignores ranges.
-/

namespace QueryResults.Http

open Download (Fetcher)
open Download.Transfer
open Store (Object)

variable {σ : Type} {settings : Settings.Transport} {transport : Transport σ} {endpoint : String}
  {address : String → String} {o : Object}

/-! ### Attempts -/

/-- A response to a request as it was made: it was signed and sent, and a response came. -/
def Transport.Answers (t : Transport σ) (r : Request) (response : Response) : Prop :=
  ∃ s signed s', (t.sign r s).1 = .ok signed ∧ (t.send signed s').1 = .response response

theorem answers_of_attempt {r : Request} {response : Response} {s s' : σ}
    (h : attempt transport r s = (.ok (.response response), s')) :
    transport.Answers r response := by
  unfold attempt at h
  split at h
  · cases h
  · rename_i signed s₁ hsign
    exact ⟨s, signed, s₁, congrArg Prod.fst hsign, Except.ok.inj (congrArg Prod.fst h)⟩

theorem conclude_eq_ok {number : Nat} {noted : Option String} {outcome : Outcome}
    {response : Response} (h : conclude number noted outcome = .ok response) :
    outcome = .response response ∧ isSuccess response.status := by
  unfold conclude at h
  split at h
  · split at h
    · rename_i hs
      cases h
      exact ⟨rfl, hs⟩
    · cases h
  · cases h

/-- Whatever came of the attempts before it, the last one was answered. -/
theorem executeFrom_eq_ok {r : Request} {left number : Nat} {noted : Option String}
    {response : Response} {s s' : σ}
    (h : executeFrom settings transport r left number noted s = (.ok response, s')) :
    transport.Answers r response ∧ isSuccess response.status := by
  have last {number : Nat} {noted : Option String} {outcome : Outcome} {s s₁ : σ}
      (ha : attempt transport r s = (.ok outcome, s₁))
      (hc : conclude number noted outcome = .ok response) :
      transport.Answers r response ∧ isSuccess response.status := by
    obtain ⟨rfl, hs⟩ := conclude_eq_ok hc
    exact ⟨answers_of_attempt ha, hs⟩
  induction left generalizing number noted s with
  | zero =>
    unfold executeFrom at h
    split at h
    · cases h
    · rename_i ha
      exact last ha (congrArg Prod.fst h)
  | succ left ih =>
    unfold executeFrom at h
    split at h
    · cases h
    · rename_i ha
      split at h
      · exact last ha (congrArg Prod.fst h)
      · exact ih h

/-- A request that was served has been answered, with a status that says so. -/
theorem execute_eq_ok {r : Request} {response : Response} {s s' : σ}
    (h : execute settings transport r s = (.ok response, s')) :
    transport.Answers r response ∧ isSuccess response.status := by
  unfold execute at h
  split at h
  · exact executeFrom_eq_ok h
  · cases h

/-! ### The object store -/

/-- The draft of the request for an object carries the range asked for. -/
theorem wants_objectRequest (endpoint : String) (q : Store.Request) :
    (objectRequest endpoint q).Wants q.start := by
  cases hs : q.start <;> cases ht : q.ifMatch <;>
    simp [objectRequest, Request.Wants, rangeText, hs, ht]

/-- What is sent for an object asks for the same as the store was asked for. -/
theorem exists_sent {q : Store.Request} {r : Request} {response : Response}
    (hk : transport.KeepsRequests address)
    (hr : transport.build (objectRequest endpoint q) = .ok r)
    (ha : transport.Answers r response) :
    ∃ signed s, (transport.send signed s).1 = .response response ∧ signed.method = .get ∧
      signed.url = address (objectUrl endpoint q.location) ∧ signed.Wants q.start := by
  obtain ⟨hmethod, hurl, hwants⟩ := hk.build _ r hr
  obtain ⟨s, signed, s', hsign, hsend⟩ := ha
  obtain ⟨hmethod', hurl', hwants'⟩ := hk.sign r s signed hsign
  exact ⟨signed, s', hsend, hmethod'.trans hmethod, hurl'.trans hurl,
    hwants'.trans (hwants.trans (wants_objectRequest endpoint q))⟩

/-- With a conforming server that honours ranges, the store at the endpoint serves the object. The
store has a name of its own here, so that what it does to a request stays folded. -/
theorem serves_objectStore {l : Location} {store : Store σ}
    (hstore : store = objectStore settings transport endpoint)
    (hk : transport.KeepsRequests address)
    (hc : transport.Conforms (address (objectUrl endpoint l)) o)
    (hh : transport.HonoursRanges (address (objectUrl endpoint l)) o) : store.Serves l o := by
  rintro q s rfl hle
  simp only [hstore, objectStore]
  split
  · trivial
  · rename_i r hr
    split
    · trivial
    · rename_i response s' he
      obtain ⟨ha, hs⟩ := execute_eq_ok he
      obtain ⟨signed, s₁, hsend, hmethod, hurl, hwants⟩ := exists_sent hk hr ha
      have hsuits := hc signed s₁ q.start response hmethod hurl hwants hle hsend hs
      rcases hsuits with ⟨hstatus, hholds⟩ | ⟨n, hn, -, hholds⟩
      · cases hn : q.start with
        | none => simpa [Store.Request.offset, hn] using hholds.isFaithful q.location
        | some n =>
          -- the whole object, though only the rest was asked for
          have hle' : n.toNat ≤ o.bytes.length := by simpa [Store.Request.offset, hn] using hle
          have := hh signed s₁ n response hmethod hurl (hn ▸ hwants) hle' hsend hs
          omega
      · simpa [Store.Request.offset, hn] using hholds.isFaithful q.location

/-! ### Downloads -/

/-- In any course of a download from a conforming server that honours ranges, the bytes received
are the first of those handed over, these are the first of the object from the offset on, each
request asks for what is still missing, and the download completes only with the last byte. -/
theorem download_exact (settings : Settings.Transport) (transport : Transport σ)
    (endpoint : String) (address : String → String) (o : Object) (f : Fetcher)
    (hk : transport.KeepsRequests address)
    (hc : transport.Conforms (address (objectUrl endpoint f.plan.location)) o)
    (hh : transport.HonoursRanges (address (objectUrl endpoint f.plan.location)) o)
    (hle : f.offset.toNat ≤ o.bytes.length) (s : σ) (acts : List Act) :
    let events := ((f.course s).run (objectStore settings transport endpoint) acts).events
    receivedBytes events <+: handedBytes events ∧
      handedBytes events <+: o.bytes.drop f.offset.toNat ∧
      Throughout (Fits o f.offset.toNat) events := by
  generalize hstore : objectStore settings transport endpoint = store
  exact Fetcher.course_delivers (serves_objectStore hstore.symm hk hc hh) hle s acts

/-- An object of six bytes. -/
def letters : Object := ⟨[97, 98, 99, 100, 101, 102], "v1", by decide⟩

/-- The download of this object. -/
def lettersFetcher : Fetcher := .ofSettings ⟨"bucket", "letters"⟩ {}

/-- Enough of demand, work and time for the whole download and one retry. -/
def lettersActs : List Act :=
  .request 4 :: List.replicate 6 .work ++ .pass (.ofSeconds 1) :: List.replicate 9 .work

/-- A server of this object, and the state in which its first body breaks off behind three bytes. -/
def lettersServer (honours : Bool) : Transport (List Nat) := server letters [118, 49] honours

/-- The course of the download from this server. -/
def lettersCourse (honours : Bool) : Course (List Nat) :=
  (lettersFetcher.course [3]).run (objectStore {} (lettersServer honours) "http://localhost")
    lettersActs

theorem conforms_lettersServer (honours : Bool) (url : String) :
    (lettersServer honours).Conforms url letters :=
  conforms_server (by decide) honours url

/-- A broken body and a rest make up the object. -/
theorem download_exact_letters :
    handedBytes (lettersCourse true).events <+: letters.bytes ∧
      Throughout (Fits letters 0) (lettersCourse true).events ∧
      (lettersCourse true).events.getLast? = some (.handed .complete) := by
  have h := download_exact {} (lettersServer true) "http://localhost" id letters lettersFetcher
    (keepsRequests_server true) (conforms_lettersServer true _) (honoursRanges_server _)
    (by decide) [3] lettersActs
  exact ⟨h.2.1, h.2.2, by cbv⟩

/-- From a server that ignores ranges, as it may, the whole object is handed over behind the first
three bytes of it, and the download completes. -/
theorem download_ignored :
    (lettersServer false).KeepsRequests id ∧
      (∀ url, (lettersServer false).Conforms url letters) ∧
      handedBytes (lettersCourse false).events = [97, 98, 99, 97, 98, 99, 100, 101, 102] ∧
      (lettersCourse false).events.getLast? = some (.handed .complete) ∧
      ¬ handedBytes (lettersCourse false).events <+: letters.bytes := by
  have hbytes : handedBytes (lettersCourse false).events =
      [97, 98, 99, 97, 98, 99, 100, 101, 102] := by cbv
  refine ⟨keepsRequests_server false, conforms_lettersServer false, hbytes, by cbv, ?_⟩
  rw [hbytes]
  decide

end QueryResults.Http
