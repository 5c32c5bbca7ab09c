import QueryResults.Proofs.Fetcher.Version
import QueryResults.Proofs.Reader.Returns

/-!
# Readers of one version

In every course a reader stays with the first version of the object whose tag is seen, however often
the store replaces it and whatever the store makes of the conditions it is asked under. Once a
response shows a change, no byte of it is handed out: reads time out as long as the task has not
looked at the response, and then one of them fails with that change; all later reads fail alike and
ask for nothing. A read that waits for the task to come to rest is itself the one that fails.

## Main definitions

* `Reader.OneVersion`: what it is for a read to stay with one version of an object.
* `Course.KeepsVersion`: what it is for a course of a reader.

## Main results

* `Course.Stands.keepsVersion`: every course of a reader.
* `Reader.oneVersion_reads`: the read behind any sequence of reads.
* `one_version`: the two ways to download an object.
-/

namespace QueryResults.Download

open Store

variable {σ : Type} {store : Store σ}

namespace Reader

variable {r r' : Reader} {log log' : List Exchange} {x : Exchange} {seen : Prop}

/-- To keep to one version of an object in some exchanges. -/
structure Unchanged (log : List Exchange) : Prop where
  /-- Once an accepted response has carried a tag, every later request asks for it. -/
  tag : KeepsTag log
  /-- Every later response with another tag shows a change. -/
  apart : TellsApart log
  /-- All exchanges but the last let the reader down in another way than by a change. -/
  retried : ∀ earlier x, log = earlier ++ [x] → ∃ failures, Noted earlier failures Exchange.LetsDown
  /-- Nothing is asked behind an exchange that shows a change. -/
  last : ∀ x ∈ log, x.ShowsChange → ∃ earlier, log = earlier ++ [x]

/-- To stay with one version of an object in a read of at most `n` bytes, whatever the store makes
of it: the reader and all exchanges made before, what the read comes to, and the reader and all
exchanges made by then. -/
structure OneVersion (n : Nat) (r : Reader) (log : List Exchange)
    (y : Except Failure (List UInt8)) (r' : Reader) (log' : List Exchange) : Prop where
  exchanges : Unchanged log'
  /-- Once an exchange shows a change, a read that does not merely time out fails with that
  change. -/
  reported : ∀ x ∈ log', x.ShowsChange →
    ∀ e, y = .error e → e.kind = .preconditionFailed ∨ e.kind = .timeout ∧ r'.failed = none
  /-- Once an answer shows a change, a read hands out nothing but times out or fails with that
  change. -/
  found : n ≠ 0 → ∀ x ∈ log', x.FindsChange → ∃ e, y = .error e ∧
    (e.kind = .preconditionFailed ∨ e.kind = .timeout ∧ r'.failed = none)
  /-- The first failure that is not a timeout is what the last exchange let the reader down by, with
  all earlier failures suppressed in order, and it is kept. -/
  fails : ∀ e, r.failed = none → y = .error e →
    (GivesUp log' e Exchange.LetsDown ∧ r'.failed = some e.repeated) ∨
      e.kind = .timeout ∧ r'.failed = none
  /-- From then on every read fails with the same kind and message and asks for nothing. -/
  again : ∀ e, r.failed = some e → r' = r ∧ log' = log ∧ (n ≠ 0 → y = .error e.repeated)

/-- To stay with one version of an object at a moment of a course: in all exchanges made, and with
whatever the next act returns. -/
structure Course.KeepsVersion (store : Store σ) (c : Course (σ × List Exchange)) : Prop where
  exchanges : Unchanged c.outside.2
  /-- A read of no bytes changes nothing, and any other one stays with one version. -/
  returns : ∀ a y, let d := c.act store.logged a
    d.results = c.results ++ [y] →
      (a = .call 0 ∧ y = .ok [] ∧ d.reader = c.reader ∧ d.outside = c.outside) ∨
        ∃ n, n ≠ 0 ∧ OneVersion n c.reader c.outside.2 y d.reader d.outside.2
  /-- Behind a failure that is kept, nothing is asked and nothing is done. -/
  again : ∀ e, c.reader.failed = some e → ∀ a, let d := c.act store.logged a
    d.reader = c.reader ∧ d.outside = c.outside

namespace Standing

/-- All exchanges but the last let the reader down in another way than by a change. -/
theorem exists_noted (h : Standing seen r log) {earlier : List Exchange}
    (hlog : log = earlier ++ [x]) : ∃ failures, Noted earlier failures Exchange.LetsDown := by
  have same {earlier' : List Exchange} {x' : Exchange} {failures : List Failure}
      (hlog' : log = earlier' ++ [x']) (hn : Noted earlier' failures Exchange.LetsDown) :
      ∃ failures, Noted earlier failures Exchange.LetsDown :=
    ⟨failures, (List.append_inj' (hlog.symm.trans hlog') rfl).1 ▸ hn⟩
  cases h with
  | idle _ _ _ _ _ hnil => simp [hnil] at hlog
  | going _ _ _ _ h =>
    obtain ⟨earlier', own, hlog', -, hn, -, rfl | ⟨x', rfl⟩⟩ := h.exists_own
    · rw [List.append_nil] at hlog'
      have htake := List.forall₂_take earlier.length hn
      rw [← hlog', hlog, List.take_left] at htake
      exact ⟨_, htake⟩
    · exact same hlog' hn
  | finished _ _ _ _ h =>
    obtain ⟨earlier', failures, x', response, hlog', hn, -⟩ := h
    exact same hlog' hn
  | failed _ _ h =>
    obtain ⟨earlier', x', e', hlog', -, hn, -⟩ := h
    exact same hlog' hn

/-- An exchange that shows a change is the last one. -/
theorem eq_last (h : Standing seen r log) (hx : x ∈ log) (hs : x.ShowsChange) :
    ∃ earlier, log = earlier ++ [x] := by
  have hne : log ≠ [] := List.ne_nil_of_mem hx
  obtain ⟨earlier, y, hlog⟩ : ∃ earlier y, log = earlier ++ [y] :=
    ⟨_, _, (List.dropLast_append_getLast hne).symm⟩
  obtain ⟨failures, hn⟩ := h.exists_noted hlog
  rw [hlog] at hx
  rcases List.mem_append.1 hx with hx | hx
  · exact absurd hs (hn.not_showsChange hx)
  · exact ⟨earlier, List.mem_singleton.1 hx ▸ hlog⟩

/-- What an answer shows of a change leaves only a reader that has failed with it. -/
theorem of_findsChange (h : Standing True r log) (hx : x ∈ log) (hchange : x.FindsChange) :
    ∃ e : Failure, r.failed = some e.repeated ∧ e.kind = .preconditionFailed := by
  cases h with
  | idle _ _ _ _ _ hnil => simp [hnil] at hx
  | going _ _ _ _ _ hno => exact absurd hchange (hno (.inl trivial) x hx)
  | failed hfailed _ h => exact ⟨_, hfailed, (h.of_showsChange hx hchange.shows).2⟩
  | finished hfailed hfinished hq hv h =>
    have hdone : Standing True r log := .finished hfailed hfinished hq hv h
    exact absurd hchange (hdone.not_findsChange hfailed (fun _ => hfinished) x hx)

/-- What a failure is that a reader reports once an exchange has shown a change. -/
theorem kind_of_got (h : Standing seen r log) {e : Failure}
    (hy : Got seen r log r' log' (.error e)) (hx : x ∈ log') (hs : x.ShowsChange) :
    e.kind = .preconditionFailed ∨ e.kind = .timeout ∧ r'.failed = none := by
  cases hy with
  | timedOut _ _ hfailed hk => exact .inr ⟨hk, hfailed⟩
  | failed _ _ _ hgives => exact .inl (hgives.of_showsChange hx hs).2
  | again hfailed _ hlog =>
    cases h with
    | failed hfailed' _ hgives =>
      obtain rfl := Option.some.inj (hfailed.symm.trans hfailed')
      exact .inl (hgives.of_showsChange (hlog ▸ hx) hs).2
    | idle hnone | going hnone | finished hnone => cases hfailed.symm.trans hnone

/-- Wherever a reader stands, all exchanges keep to one version. -/
theorem unchanged (h : Standing seen r log) : Unchanged log where
  tag := h.versioned.keepsTag
  apart := h.versioned.keepsTag.tellsApart
  retried _ _ hlog := h.exists_noted hlog
  last _ hx hs := h.eq_last hx hs

/-- Wherever a reader stands, a read stays with one version. -/
theorem oneVersion_of_got {n : Nat} {y : Except Failure (List UInt8)} (h : Standing seen r log)
    (hy : Got seen r log r' log' y) : OneVersion n r log y r' log' := by
  have h' := h.of_got hy
  exact
    { exchanges := h'.unchanged
      reported := fun x hx hs e he => h.kind_of_got (he ▸ hy) hx hs
      found := fun _ x hx hchange => by
        cases y with
        | ok bytes =>
          cases hy with
          | bytes _ _ _ hno => exact absurd hchange (hno x hx)
        | error e => exact ⟨e, rfl, h.kind_of_got hy hx hchange.shows⟩
      fails := fun e hnone he => by
        rw [he] at hy
        cases hy with
        | timedOut _ _ hfailed hk => exact .inr ⟨hk, hfailed⟩
        | failed _ hfailed _ hgives => exact .inl ⟨hgives, hfailed⟩
        | again hfailed => cases hnone.symm.trans hfailed
      again := fun e hfailed => by
        cases hy with
        | bytes hnone | timedOut hnone | failed hnone => cases hfailed.symm.trans hnone
        | again hfailed' hr hlog =>
          obtain rfl := Option.some.inj (hfailed.symm.trans hfailed')
          exact ⟨hr, hlog, fun _ => rfl⟩ }

/-- A read of no bytes changes nothing. -/
theorem oneVersion_of_zero (h : Standing seen r log) : OneVersion 0 r log (.ok []) r log where
  exchanges := h.unchanged
  reported _ _ _ := nofun
  found h0 := absurd rfl h0
  fails := nofun
  again _ _ := ⟨rfl, rfl, fun h0 => absurd rfl h0⟩

end Standing

/-- At every moment of its course, a reader stays with one version of the object. -/
theorem Course.Stands.keepsVersion {c : Course (σ × List Exchange)} {retries : Nat}
    (h : c.Stands retries) (store : Store σ) : c.KeepsVersion store where
  exchanges := h.standing.unchanged
  returns a y hy := by
    rcases (h.returns_of_results store a hy).2 with hnothing | ⟨-, hgot⟩
    · exact .inl hnothing
    · exact .inr ⟨1, Nat.one_ne_zero, h.standing.oneVersion_of_got hgot⟩
  again e hfailed a := by
    have hidle : c.reader.transfer = none := by
      cases h.balanced.reader with
      | idle hnone => exact hnone
      | going _ hno => cases hno.symm.trans hfailed
    have hstage (hfits : c.stage.Fits c.reader) : c.stage = .resting := by
      cases hs : c.stage with
      | resting => rfl
      | granting n before =>
        rw [hs] at hfits
        cases hfits.2.failed.symm.trans hfailed
      | waiting n before =>
        rw [hs] at hfits
        cases hfits.2.1.failed.symm.trans hfailed
    have hrest := hstage h.balanced.stage
    cases a with
    | work => simp [Course.act, Course.work, hidle]
    | call n =>
      simp only [Course.act, hrest, Course.call, hfailed]
      split <;> exact ⟨rfl, rfl⟩
    | grant | hear => simp [Course.act, hrest]

/-- The read behind any sequence of reads stays with one version of the object. It waits for the
task to come to rest, so it fails with a change that an answer to it shows. -/
theorem oneVersion_reads (store : Store σ) (s : σ) (location : Location)
    (settings : Settings.Download) (sizes : List Nat) (n : Nat) :
    let past := reads store.logged sizes (ofLocation location settings) (s, [])
    let now := read store.logged n past.1 past.2
    OneVersion n past.1 past.2.2 now.1 now.2.1 now.2.2.2 ∧
      (n ≠ 0 → ∀ x ∈ now.2.2.2, x.FindsChange →
        ∃ e, now.1 = .error e ∧ e.kind = .preconditionFailed) := by
  intro past now
  have h : Standing True past.1 past.2.2 := standing_reads location settings s sizes
  by_cases hn : n = 0
  · have hnow : now = (.ok [], past.1, past.2) := by
      simp only [now, read, if_pos hn]
    rw [hnow, hn]
    exact ⟨h.oneVersion_of_zero, fun h0 => absurd rfl h0⟩
  · have hgot : Standing.Got True past.1 past.2.2 now.2.1 now.2.2.2 now.1 := h.read hn rfl
    have hone : OneVersion n past.1 past.2.2 now.1 now.2.1 now.2.2.2 := h.oneVersion_of_got hgot
    refine ⟨hone, fun _ x hx hchange => ?_⟩
    obtain ⟨e', hfailed, -⟩ := (h.of_got hgot).of_findsChange hx hchange
    obtain ⟨e, he, hk | ⟨-, hnone⟩⟩ := hone.found hn x hx hchange
    · exact ⟨e, he, hk⟩
    · cases hfailed.symm.trans hnone

end Reader

/-- Both ways to download an object stay with one version of it, whatever the store does: a transfer
in any course, and a reader in any course, wherever reads time out. A reader whose reads wait for
the task to come to rest fails in the very read in which a change comes to light. -/
theorem one_version (store : Store σ) (s : σ) :
    (∀ (f : Fetcher) (acts : List Transfer.Act),
      ((f.course s).run store acts).OneVersion store) ∧
    (∀ (location : Location) (settings : Settings.Download) (acts : List Reader.Act),
      ((Reader.Course.start location settings (s, [])).run store.logged acts).KeepsVersion store) ∧
    ∀ (location : Location) (settings : Settings.Download) (sizes : List Nat) (n : Nat),
      let past := Reader.reads store.logged sizes (.ofLocation location settings) (s, [])
      let now := Reader.read store.logged n past.1 past.2
      Reader.OneVersion n past.1 past.2.2 now.1 now.2.1 now.2.2.2 ∧
        (n ≠ 0 → ∀ x ∈ now.2.2.2, x.FindsChange →
          ∃ e, now.1 = .error e ∧ e.kind = .preconditionFailed) :=
  ⟨fun f acts => f.course_oneVersion store s acts,
    fun location settings acts =>
      ((Reader.Course.Stands.start location settings s).run store acts).keepsVersion store,
    fun location settings sizes n =>
      Reader.oneVersion_reads store s location settings sizes n⟩

/-- A body that breaks off, and a response with another tag. -/
def replacedScript : List (Except Failure Turn) :=
  [.ok ⟨some "v1", [[104, 101, 108]], some (.io "Connection reset")⟩,
    .ok ⟨some "v2", [[108], [111]], none⟩]

/-- A download up to the second answer. -/
def replacedCourse : Transfer.Course (List (Except Failure Turn)) :=
  ((Fetcher.ofSettings ⟨"bucket", "hello"⟩ {}).course replacedScript).run (scripted 5)
    (.request 2 :: List.replicate 5 .work ++ .pass (.ofSeconds 1) :: List.replicate 2 .work)

/-- Here the second response carries another tag: two steps later the download closes with that
change, and the failure of the first body is suppressed. -/
theorem one_version_replaced :
    ∃ e : Failure, e.kind = .preconditionFailed ∧ e.suppressed.length = 1 ∧
      ((replacedCourse.act (scripted 5) .work).act (scripted 5) .work).ClosesWith (.failed e) := by
  have h : replacedCourse.OneVersion (scripted 5) := (one_version (scripted 5) replacedScript).1 _ _
  have hlog : Transfer.exchanges replacedCourse.events =
      [⟨⟨⟨"bucket", "hello"⟩, none, none⟩, .response
          ⟨some "v1", some 5, [.chunk [104, 101, 108], .failure (.io "Connection reset")]⟩⟩,
        ⟨⟨⟨"bucket", "hello"⟩, some 3, some "v1"⟩, .response
          ⟨some "v2", some 2, [.chunk [108], .chunk [111]]⟩⟩] := by cbv
  have hcancelled : replacedCourse.transfer.cancelled = false := by cbv
  have hno : .cancelled ∉ replacedCourse.events := fun hx => Bool.false_ne_true
    (hcancelled.symm.trans ((Fetcher.course_orderly _ _ _ _).cancelled.2 hx))
  obtain ⟨e, hkind, hgives, hcloses, -⟩ := h.fails _
    (hlog ▸ List.mem_cons_of_mem _ List.mem_cons_self) (.seen rfl rfl rfl (by decide)) hno
  obtain ⟨earlier, x, e', hown, -, hnoted, -⟩ := hgives
  have hlength : earlier.length = 1 := by simpa [hlog] using congrArg List.length hown.symm
  exact ⟨e, hkind, hnoted.length_eq ▸ hlength, hcloses⟩

end QueryResults.Download
