import QueryResults.Proofs.Fetcher.Reconstruction
import QueryResults.Proofs.Transfer.Ledger

/-!
# The protocol of a download

The task of a download and its consumer keep a protocol in every course and with every store, well
behaved or not: chunks come before the only last signal, nothing happens after the cancellation,
and no chunk is handed over, nor looked for, that was not granted. Only where an offset is too large
for a word is there no last signal (`Fetcher.ends_without_signal`).

## Main results

* `Fetcher.keeps_protocol`: the signals, the cancellation and the requests.
* `Fetcher.ends_without_signal`: a task that breaks down.
* `Fetcher.keeps_demand`: the chunks granted and the chunks handed over.
-/

namespace QueryResults.Download.Fetcher

open Store Transfer

variable {σ : Type}

/-! ### Signals -/

theorem course_orderly (f : Fetcher) (store : Store σ) (s : σ) (acts : List Act) :
    ((f.course s).run store acts).Orderly f.offset.toNat :=
  (Course.Orderly.ofStart f.plan f.offset f.etag s).run store acts

/-- In every course of a download, the signals received are chunks and at most one last signal
behind them; nothing but the end is received after the last signal or the cancellation, and it is
received only then, or once an offset was too large for a word; a cancelled task asks for nothing,
polls no body and makes no progress, whatever is done then; a task that was not cancelled is over
with exactly one last signal handed over, or with none, once an offset was too large for a word; and
there is at most one request more than there are retries. -/
theorem keeps_protocol (f : Fetcher) (store : Store σ) (s : σ) (acts : List Act) :
    let c := (f.course s).run store acts
    (∃ (chunks : List (List UInt8)) (ending : Option Signal),
      receivedSignals c.events = chunks.map .chunk ++ ending.toList ∧
        ∀ x ∈ ending, x.isTerminal = true) ∧
    Throughout (Regular f.offset.toNat) c.events ∧
    (.cancelled ∈ c.events → ∀ more : List Act,
      let d := c.run store more
      ¬d.transfer.Polls ∧ d.transfer.progress = c.transfer.progress ∧ d.outside = c.outside ∧
        requests d.events = requests c.events) ∧
    (c.transfer.isEnded = true → .cancelled ∉ c.events →
      (∃ (chunks : List (List UInt8)) (last : Signal),
        handedSignals c.events = chunks.map .chunk ++ [last] ∧ last.isTerminal = true) ∨
      Overruns f.offset.toNat c.events ∧
        ∃ chunks : List (List UInt8), handedSignals c.events = chunks.map .chunk) ∧
    (requests c.events).length ≤ 1 + f.plan.maxRetries := by
  intro c
  have h : c.Orderly f.offset.toNat := f.course_orderly store s acts
  refine ⟨?_, h.events, ?_, ?_, ?_⟩
  · have hlast := h.last
    rw [h.handed] at hlast
    exact exists_chunks_append (List.pairwise_append.1 hlast).1
  · intro hx more
    exact Course.run_of_cancelled store (h.cancelled.2 hx) more
  · intro hp hx
    have hc : c.transfer.cancelled = false := by
      rw [← Bool.not_eq_true]
      exact fun hc => hx (h.cancelled.1 hc)
    obtain ⟨chunks, ending, heq, hend⟩ := exists_chunks_append h.last
    cases ending with
    | some last => exact .inl ⟨chunks, last, heq, hend last rfl⟩
    | none =>
      rw [Option.toList_none, List.append_nil] at heq
      refine .inr ⟨?_, chunks, heq⟩
      -- Chunks alone are no last signal, so the task did not end but broke down.
      refine h.counted.lost ((isEnded_iff.1 hp).resolve_left fun hp => ?_)
      obtain ⟨x, hx, hx'⟩ := h.terminated hp hc
      rw [heq] at hx
      obtain ⟨b, -, rfl⟩ := List.mem_map.1 hx
      cases hx'
  · have hle : (requests c.events).length + c.transfer.attemptsLeft ≤ 0 + (f.plan.maxRetries + 1) :=
      Course.requests_run store (f.course s) acts
    omega

/-- The acts by which the object of five bytes is received from its second byte on. -/
def helloActs : List Act :=
  [.request 1, .work, .work, .work, .work, .work, .work, .next, .next, .next]

/-- Here the task ends with the completion behind the only chunk, and the end is received after it;
the same task cancelled first asks for nothing. -/
theorem keeps_protocol_hello :
    (∃ (chunks : List (List UInt8)) (last : Signal),
      handedSignals ((helloFetcher.course []).run helloStore helloActs).events =
          chunks.map .chunk ++ [last] ∧ last.isTerminal = true) ∧
      requests (((helloFetcher.course []).run helloStore [.cancel]).run helloStore
        helloActs).events = [] := by
  constructor
  · have hevents : ((helloFetcher.course []).run helloStore helloActs).events =
        [.granted 1,
          .asked ⟨⟨⟨"bucket", "hello"⟩, some 1, none⟩, .response ⟨some "v1", some 4,
            [.chunk [101, 108, 108, 111]]⟩⟩,
          .handed (.chunk [101, 108, 108, 111]), .handed .complete,
          .received (.signal (.chunk [101, 108, 108, 111])), .received (.signal .complete),
          .received .over] := by cbv
    have hover := (keeps_protocol helloFetcher helloStore [] helloActs).2.2.2.1 (by cbv)
      (by simp [hevents])
    refine hover.resolve_right ?_
    rintro ⟨-, chunks, hchunks⟩
    have hmem : Signal.complete ∈ chunks.map .chunk := by
      rw [← hchunks, hevents]
      simp [handedSignals]
    obtain ⟨b, -, hb⟩ := List.mem_map.1 hmem
    cases hb
  · have hx : .cancelled ∈ ((helloFetcher.course []).run helloStore [.cancel]).events := by
      simp [Course.run, Course.act]
    exact ((keeps_protocol helloFetcher helloStore [] [.cancel]).2.2.1 hx helloActs).2.2.2

/-- A store whose bodies are these three bytes, at whatever offset they are asked for. -/
def endlessStore : Store Unit where
  get _ s := (.response ⟨none, none, [.chunk [97, 98, 99]]⟩, s)

/-- Behind the last offset that is a word there is none, so a chunk handed over from there on breaks
the task down: nobody has cancelled it, it is over, and the chunk and the end are all that is
received. -/
theorem ends_without_signal :
    let f := (ofSettings ⟨"b", "k"⟩ {}).resumeFrom 18446744073709551615 none
    let c := (f.course ()).run endlessStore
      [.request 8, .work, .work, .work, .work, .work, .next, .next]
    c.transfer.isEnded = true ∧
      c.events =
        [.granted 8,
          .asked ⟨⟨⟨"b", "k"⟩, some 18446744073709551615, none⟩,
            .response ⟨none, none, [.chunk [97, 98, 99]]⟩⟩,
          .handed (.chunk [97, 98, 99]), .received (.signal (.chunk [97, 98, 99])),
          .received .over] := by
  cbv

/-! ### Demand -/

theorem course_solvent (f : Fetcher) (store : Store σ) (s : σ) (acts : List Act) :
    ((f.course s).run store acts).Solvent :=
  (Course.Solvent.ofStart f.plan f.offset f.etag s).run store acts

/-- In every course of a download, no more chunks are received than handed over and no more handed
over than granted; the body is polled only with a granted chunk outstanding; an empty chunk is
dropped, costs nothing and is never handed over; every act that neither grants nor hands over a
chunk leaves the demand as it is, a resumption like any other, so the demand is what was granted
less what was handed over as long as a word can count it; and a chunk handed over takes one off a
demand that is at least one. -/
theorem keeps_demand (f : Fetcher) (store : Store σ) (s : σ) (acts : List Act) :
    let c := (f.course s).run store acts
    (receivedChunks c.events ≤ handedChunks c.events ∧
      handedChunks c.events ≤ grantedChunks c.events) ∧
    (c.transfer.Polls → handedChunks c.events + 1 ≤ grantedChunks c.events) ∧
    (.handed (.chunk []) ∉ c.events ∧
      ∀ body, c.transfer.phase = .reading (.chunk [] :: body) → c.transfer.Polls →
        let d := c.act store .work
        d.transfer.phase = .reading body ∧ d.events = c.events ∧
          d.transfer.demandNow = c.transfer.demandNow) ∧
    (∀ a : Act,
      let d := c.act store a
      handedChunks d.events = handedChunks c.events →
        grantedChunks d.events = grantedChunks c.events →
        d.transfer.demandNow = c.transfer.demandNow) ∧
    (Countable c.events →
      c.transfer.demandNow.toNat = grantedChunks c.events - handedChunks c.events) ∧
    (∀ a : Act,
      let d := c.act store a
      handedChunks d.events ≠ handedChunks c.events →
        handedChunks d.events = handedChunks c.events + 1 ∧
          d.transfer.progress.demand.toNat + 1 = c.transfer.progress.demand.toNat) := by
  intro c
  have h : c.Solvent := f.course_solvent store s acts
  have hle := h.due_le
  refine ⟨⟨?_, by omega⟩, fun hpolls => ?_, ⟨h.chunks, fun body hp hpolls => ?_⟩, fun a => ?_,
    fun hcount => ?_, fun a => ?_⟩
  · unfold receivedChunks handedChunks
    rw [(f.course_orderly store s acts).handed, List.countP_append]
    exact Nat.le_add_right _ _
  · have := due_pos_of_polls hpolls
    omega
  · intro d
    have hd : d = { c with transfer := { c.transfer.gathered with phase := .reading body } } :=
      Course.work_of_empty store hp hpolls
    rw [hd]
    exact ⟨rfl, rfl, rfl⟩
  · intro d hhanded hgranted
    rcases h.demand_act store a with ⟨-, heq⟩ | ⟨hone, -⟩
    · exact heq hgranted
    · exact absurd (hhanded.symm.trans hone) (Nat.ne_of_lt (Nat.lt_succ_self _))
  · have hdue := h.due_eq hcount
    have hlt := hcount _ (List.prefix_refl _)
    rw [toNat_demandNow]
    omega
  · intro d hne
    rcases h.demand_act store a with ⟨heq, -⟩ | hone
    · exact absurd heq hne
    · exact hone

end QueryResults.Download.Fetcher
