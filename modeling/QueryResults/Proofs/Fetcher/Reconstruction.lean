import QueryResults.Proofs.Fetcher.Collect
import QueryResults.Proofs.Store.Faltering

/-!
# Downloads reconstruct the object

A download starts at some offset and delivers the object from there on, exactly. This holds at every
moment and for every order in which the task, the consumer and the passing of time take turns: no
matter how the demand is granted and where bodies break off, the bytes delivered so far are the
first of those wanted, and each request continues where they end.

If the first request is answered, the object is never found changed and no more attempts fall short
than there are retries, then receiving the whole download gives all bytes wanted.

## Main definitions

* `Fetcher.course`: the course of a download that has just begun.

## Main results

* `Fetcher.course_delivers`: what a download delivers in any course.
* `Fetcher.fetchAll_eq_wanted`: when the whole of a download is received.
* `Fetcher.reconstructs`: both for a download under given settings, begun anywhere.
-/

namespace QueryResults.Download.Fetcher

open Store Transfer

variable {σ : Type} {store : Store σ} {o : Object}

/-- The course of a download that has just begun. -/
def course (f : Fetcher) (s : σ) : Course σ :=
  { transfer := .start f.plan f.offset f.etag, outside := s }

/-- In any course of a download, the bytes received are the first of those handed over, these are
the first of those wanted, and every event fits in. -/
theorem course_delivers {f : Fetcher} (hs : store.Serves f.plan.location o)
    (hle : f.offset.toNat ≤ o.bytes.length) (s : σ) (acts : List Act) :
    receivedBytes ((f.course s).run store acts).events <+:
        handedBytes ((f.course s).run store acts).events ∧
      handedBytes ((f.course s).run store acts).events <+: o.bytes.drop f.offset.toNat ∧
      Throughout (Fits o f.offset.toNat) ((f.course s).run store acts).events := by
  have h : ((f.course s).run store acts).Faithful o f.offset.toNat :=
    (Course.Faithful.ofStart hle).run hs acts
  refine ⟨?_, ⟨_, h.handed_append⟩, h.events⟩
  rw [h.handed]
  exact List.prefix_append _ _

/-- An answered first request, an object never found changed and enough retries leave a download no
reason to fail. -/
theorem fetchAll_eq_wanted {f : Fetcher} (hsub : f.subscribed = false)
    (hs : store.Serves f.plan.location o) (hp : store.IsPrompt)
    (hle : f.offset.toNat ≤ o.bytes.length) (hpos : 0 < f.plan.capacity)
    (hlt : f.plan.capacity < UInt64.size) {s : σ}
    (hfirst : ∃ q r, (f.exchanges store s).head? = some ⟨q, .response r⟩)
    (hsame : ∀ x ∈ f.exchanges store s, ¬ x.BreaksCondition)
    (hfew : shortfalls o (f.exchanges store s) ≤ f.plan.maxRetries) :
    (f.fetchAll store s).1.result = some (.ok (o.bytes.drop f.offset.toNat)) := by
  rcases fetchAll_prompt hsub hs hp hle hpos hlt s with h | ⟨-, hblamed⟩
  · exact h
  · cases hblamed with
    | refused q e hlog =>
      obtain ⟨q', r, hq⟩ := hfirst
      rw [hlog] at hq
      cases hq
    | changed x hx hb => exact absurd hb (hsame x hx)
    | exhausted hmany => exact absurd hfew (Nat.not_le_of_lt hmany)

/-- A download under given settings, begun at any offset within the object and with any tag or none,
delivers at every moment of every course the first of the bytes wanted, asks for what is still
missing, under the object's tag once the store has responded, and completes only with the last byte.
If the first request is answered, the object is never found changed and no more attempts fall short
than there are retries, the whole download is received. -/
theorem reconstructs (location : Location) (settings : Settings.Download) (offset : UInt64)
    (etag : Option String) (hs : store.Serves location o) (hle : offset.toNat ≤ o.bytes.length)
    (s : σ) :
    let f := (ofSettings location settings).resumeFrom offset etag
    let wanted := o.bytes.drop offset.toNat
    (∀ acts : List Act,
      let events := ((f.course s).run store acts).events
      receivedBytes events <+: handedBytes events ∧ handedBytes events <+: wanted ∧
        Throughout (Fits o offset.toNat) events) ∧
    (store.IsPrompt →
      (∃ q r, (f.exchanges store s).head? = some ⟨q, .response r⟩) →
      (∀ x ∈ f.exchanges store s, ¬ x.BreaksCondition) →
      shortfalls o (f.exchanges store s) ≤ settings.maxRetries.toNat →
      (f.fetchAll store s).1.result = some (.ok wanted)) := by
  intro f wanted
  refine ⟨fun acts => course_delivers (f := f) hs hle s acts, ?_⟩
  intro hp hfirst hsame hfew
  have hpos : 0 < f.plan.capacity := Nat.le_max_right _ _
  have hlt : f.plan.capacity < UInt64.size :=
    Nat.max_lt.2 ⟨settings.chunkBuffer.toNat_lt, by decide⟩
  exact fetchAll_eq_wanted (f := f) rfl hs hp hle hpos hlt hfirst hsame hfew

/-- An object of five bytes. -/
def hello : Object := ⟨[104, 101, 108, 108, 111], "v1", by decide⟩

/-- A store of this object whose bodies break off after the given numbers of bytes, one number a
body. -/
def helloStore : Store (List Nat) :=
  faltering (fun _ => hello) fun cuts => (cuts.head?, cuts.tail)

/-- The download of the object from its second byte on. -/
def helloFetcher : Fetcher := (ofSettings ⟨"bucket", "hello"⟩ {}).resumeFrom 1 none

/-- Two bodies that break off cost two retries and no byte. -/
theorem reconstructs_hello :
    helloStore.Serves ⟨"bucket", "hello"⟩ hello ∧ (1 : UInt64).toNat ≤ hello.bytes.length ∧
      (helloFetcher.fetchAll helloStore [2, 0]).1.result = some (.ok [101, 108, 108, 111]) := by
  have hserves : helloStore.Serves ⟨"bucket", "hello"⟩ hello := serves_faltering _ _ _
  have hlog : helloFetcher.exchanges helloStore [2, 0] =
      [⟨⟨⟨"bucket", "hello"⟩, some 1, none⟩, .response ⟨some "v1", some 4,
          [.chunk [101, 108], .failure (.io "Connection reset")]⟩⟩,
        ⟨⟨⟨"bucket", "hello"⟩, some 3, some "v1"⟩, .response ⟨some "v1", some 2,
          [.chunk [], .failure (.io "Connection reset")]⟩⟩,
        ⟨⟨⟨"bucket", "hello"⟩, some 3, some "v1"⟩, .response ⟨some "v1", some 2,
          [.chunk [108, 111]]⟩⟩] := by cbv
  refine ⟨hserves, by decide, ?_⟩
  refine (reconstructs _ {} 1 none hserves (by decide) [2, 0]).2 (isPrompt_faltering _ _)
    ⟨_, _, congrArg List.head? hlog⟩ ?_ ?_
  · intro x hx
    change x ∈ helloFetcher.exchanges helloStore [2, 0] at hx
    rw [hlog] at hx
    simp only [List.mem_cons, List.not_mem_nil, or_false] at hx
    rcases hx with rfl | rfl | rfl <;> simp [Exchange.BreaksCondition, Failure.io]
  · change shortfalls hello (helloFetcher.exchanges helloStore [2, 0]) ≤ 5
    rw [hlog]
    decide

end QueryResults.Download.Fetcher
