import QueryResults.Proofs.Reader.Returns

/-!
# The end of the data

A reader reports the end of the data when its last response was accepted and either the end which
that response has declared is reached, or it has declared none and its body ended cleanly: each
attempt of a reader is a transfer of its own, which knows nothing of what earlier responses have
declared. So no end is missed that all accepted responses declare, and one may be missed that a
resumed response leaves out.

## Main results

* `Reader.end_reached`: what the end of the data rests on.
* `Reader.end_missed`: an end that is missed because a resumed response leaves it out.
-/

namespace QueryResults.Download

open Store

variable {σ : Type}

namespace Reader

variable {r r' : Reader} {log log' : List Exchange} {seen : Prop}

/-! ### The end of the data -/

/-- An end that all accepted responses declare, or declare to lie further on, is reached. -/
theorem Reached.le {position : UInt64} (h : Reached log position) {finish : Nat}
    (hdeclared : ∀ y ∈ log, y.accepted.isSome → ∃ declared, y.finish = some declared ∧
      finish ≤ declared) : finish ≤ position.toNat := by
  obtain ⟨earlier, failures, x, response, hlog, -, hr, hx⟩ := h
  obtain ⟨declared, hd, hle⟩ := hdeclared x (by simp [hlog]) (by simp [hr])
  rcases hx with ⟨end', hfinish, hle'⟩ | ⟨hnone, -⟩
  · obtain rfl := Option.some.inj (hd.symm.trans hfinish)
    exact Nat.le_trans hle hle'
  · cases hnone.symm.trans hd

/-- A read that hands out nothing has come to the end of the data. -/
theorem Standing.Got.reached (h : Standing.Got seen r log r' log' (.ok [])) :
    Reached log' r'.position := by
  cases h with
  | bytes _ hstanding hfailed _ hfinished =>
    cases hstanding with
    | finished _ _ _ _ h => exact h
    | idle _ hgo | going _ hgo => cases hgo.symm.trans (hfinished rfl)
    | failed hno => cases hfailed.symm.trans hno

/-- The reader of an object that has not failed and hands out nothing, though bytes were asked for,
has been told the end: its last response was accepted, and the end it declared is reached, or it
declared none and its body was taken to the end. So if all accepted responses declare that the
object ends at `finish` or later, the reader has got there. This holds in all courses of a reader,
wherever its reads time out, and for the read behind any sequence of reads that wait for the task to
come to rest. -/
theorem end_reached (store : Store σ) (s : σ) (location : Location) (settings : Settings.Download) :
    (∀ (acts : List Act) (a : Act),
      let c := (Course.start location settings (s, [])).run store.logged acts
      let d := c.act store.logged a
      a ≠ .call 0 → d.results = c.results ++ [.ok []] →
        Reached d.outside.2 d.reader.position ∧
          ∀ finish : Nat,
            (∀ y ∈ d.outside.2, y.accepted.isSome → ∃ declared, y.finish = some declared ∧
              finish ≤ declared) →
            finish ≤ d.reader.position.toNat) ∧
    ∀ (sizes : List Nat) (n : Nat),
      let past := reads store.logged sizes (ofLocation location settings) (s, [])
      let now := read store.logged n past.1 past.2
      n ≠ 0 → now.1 = .ok [] →
        Reached now.2.2.2 now.2.1.position ∧
          ∀ finish : Nat,
            (∀ y ∈ now.2.2.2, y.accepted.isSome → ∃ declared, y.finish = some declared ∧
              finish ≤ declared) →
            finish ≤ now.2.1.position.toNat := by
  constructor
  · intro acts a c d ha hend
    have hstands : c.Stands settings.maxRetries.toNat :=
      (Course.Stands.start location settings s).run store acts
    rcases (hstands.returns_of_results store a hend).2 with ⟨hzero, -⟩ | ⟨-, hgot⟩
    · exact absurd hzero ha
    · exact ⟨hgot.reached, fun finish hdeclared => hgot.reached.le hdeclared⟩
  · intro sizes n past now hn hend
    have hstanding : Standing True past.1 past.2.2 := standing_reads location settings s sizes
    have hgot : Standing.Got True past.1 past.2.2 now.2.1 now.2.2.2 now.1 := hstanding.read hn rfl
    rw [hend] at hgot
    exact ⟨hgot.reached, fun finish hdeclared => hgot.reached.le hdeclared⟩

/-- A body that breaks off, a failure, and the rest of an object of five bytes. -/
def brokenAnswers : List Answer :=
  [.response ⟨some "v1", some 5, [.chunk [104, 101, 108], .failure (.io "Connection reset")]⟩,
    .failure (.io "Service unavailable"), .response ⟨none, some 2, [.chunk [108], .chunk [111]]⟩]

/-- A read that gets three bytes, one that times out before the next request is answered, and those
that get the rest. -/
def brokenActs : List Act :=
  [.call 8, .grant, .work, .work, .work, .work, .hear,
    .call 8, .grant, .work, .work, .hear, .grant, .hear,
    .call 8, .grant, .work, .work, .work, .hear, .grant, .work, .work, .work, .work, .hear,
    .call 8, .grant, .work, .work, .hear,
    .call 8, .grant, .work, .work]

/-- The course of these reads up to the last signal. -/
def brokenCourse : Course (List Answer × List Exchange) :=
  (Course.start ⟨"bucket", "hello"⟩ {} (brokenAnswers, [])).run tape.logged brokenActs

/-- Here all accepted responses declare that the object ends behind its fifth byte, and no read
reports the end before, though one of them times out on the way. -/
theorem end_reached_broken :
    let d := brokenCourse.act tape.logged .hear
    d.results.map Except.toOption = [some [104, 101, 108], none, some [108], some [111], some []] ∧
      d.results = brokenCourse.results ++ [.ok []] ∧ 5 ≤ d.reader.position.toNat := by
  have hresults : (brokenCourse.act tape.logged .hear).results.map Except.toOption =
      [some [104, 101, 108], none, some [108], some [111], some []] := by cbv
  have hlast : (brokenCourse.act tape.logged .hear).results =
      brokenCourse.results ++ [.ok []] := by cbv
  have hlog : (brokenCourse.act tape.logged .hear).outside.2.map
      (fun y => (y.accepted.isSome, y.finish)) =
      [(true, some 5), (false, none), (true, some 5)] := by cbv
  refine ⟨hresults, hlast, ((end_reached tape brokenAnswers ⟨"bucket", "hello"⟩ {}).1 brokenActs
    .hear (fun h => by cases h) hlast).2 5 fun y hy haccepted => ?_⟩
  have hmem := hlog ▸ List.mem_map_of_mem hy
  simp only [haccepted, List.mem_cons, Prod.mk.injEq, Bool.true_eq_false, false_and, true_and,
    List.not_mem_nil, or_false, false_or, or_self] at hmem
  exact ⟨5, hmem, Nat.le_refl 5⟩

/-- A response that declares ten bytes and breaks off behind three of them, and a resumed one that
declares no length and ends behind two. -/
def undeclaredAnswers : List Answer :=
  [.response ⟨some "v1", some 10, [.chunk [1, 2, 3], .failure (.io "Connection reset")]⟩,
    .response ⟨some "v1", none, [.chunk [4, 5]]⟩]

/-- Here the end of the data is reported behind five bytes, though the first response was accepted
and declared ten. -/
theorem end_missed :
    let c := (Course.start ⟨"bucket", "hello"⟩ {} (undeclaredAnswers, [])).run tape.logged
      [.call 8, .grant, .work, .work, .work, .work, .hear,
        .call 8, .grant, .work, .work, .hear, .grant, .work, .work, .work, .work, .hear,
        .call 8, .grant, .work, .work, .hear]
    c.results.map Except.toOption = [some [1, 2, 3], some [4, 5], some []] ∧
      c.reader.finished = true ∧ c.reader.position = 5 ∧
      c.outside.2 =
        [⟨⟨⟨"bucket", "hello"⟩, none, none⟩, undeclaredAnswers[0]⟩,
          ⟨⟨⟨"bucket", "hello"⟩, some 3, some "v1"⟩, undeclaredAnswers[1]⟩] := by
  cbv
  exact ⟨rfl, rfl⟩

end Reader

end QueryResults.Download
