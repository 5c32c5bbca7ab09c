import QueryResults.Proofs.Reader.Accounts

/-!
# What reads return in a course

In a course a read may time out while the task of the transfer is still slow to look at an answer.
So the reader stands with the exchanges made as it does after a sequence of reads, except that an
answer may have come that nobody has looked at. As long as there is something in its queue there is
none: the task has asked before it handed over the first chunk, and asks only once.

An act that ends a read returns what the same read would come to by itself, a time-out included.

## Main definitions

* `Course.Stands`: where a reader stands in its course.
* `Course.Returns`: what an act returns that ends a read.

## Main results

* `Course.Stands.act`: what an act keeps and returns.
* `Course.Stands.run`: where a reader stands in any course.
-/

namespace QueryResults.Download.Reader

open Store

variable {σ : Type} {store : Store σ} {c d : Course (σ × List Exchange)} {retries n : Nat}
  {before : Reader} {a : Act} {y : Except Failure (List UInt8)}

/-- Where a reader stands in a course whose store keeps a log. The last answer may have come without
the task having looked at it. -/
structure Course.Stands (retries : Nat) (c : Course (σ × List Exchange)) : Prop where
  balanced : c.Balanced retries
  standing : c.reader.Standing False c.outside.2

/-- An act that leads from `c` to `d` returns `y` as the result of a read. A read of no bytes
changes nothing; any other one comes to what the reader has got since. -/
def Course.Returns (c : Course (σ × List Exchange)) (a : Act) (d : Course (σ × List Exchange))
    (y : Except Failure (List UInt8)) : Prop :=
  d.results = c.results ++ [y] ∧
    ((a = .call 0 ∧ y = .ok [] ∧ d.reader = c.reader ∧ d.outside = c.outside) ∨
      a ≠ .call 0 ∧ Standing.Got False c.reader c.outside.2 d.reader d.outside.2 y)

/-- An act that ends no read returns nothing, and the reader stands where its course is. -/
def Course.Advances (c : Course (σ × List Exchange)) (d : Course (σ × List Exchange)) : Prop :=
  d.results = c.results ∧ d.reader.Standing False d.outside.2

/-- A step of the task. It asks only for a reader with nothing in its queue. -/
theorem Standing.transition {r : Reader} {t t' : Transfer} {v v' : σ × List Exchange}
    (h : r.Standing False v.2) (hb : r.Balanced) (ht : r.transfer = some t)
    (hstep : Transfer.Transition store.logged t v t' v') :
    Standing False { r with transfer := some t' } v'.2 := by
  cases h with
  | idle _ _ hnone => cases hnone.symm.trans ht
  | going hfailed hfinished ht' hq hbound hno =>
    obtain rfl := Option.some.inj (ht'.symm.trans ht)
    refine .going hfailed hfinished rfl hq { hbound.transition hstep with } fun hseen => ?_
    have hne : r.queue ≠ [] := hseen.resolve_left id
    rw [Transfer.log_eq_of_transition hstep (hbound.asked hne)]
    exact hno (.inr hne)
  | finished _ hfinished =>
    cases hb with
    | idle hnone => cases hnone.symm.trans ht
    | going _ _ hgo => cases hgo.symm.trans hfinished
  | failed hfailed =>
    cases hb with
    | idle hnone => cases hnone.symm.trans ht
    | going _ hno => cases hno.symm.trans hfailed

namespace Course.Stands

theorem start (location : Location) (settings : Settings.Download) (s : σ) :
    Stands settings.maxRetries.toNat (Course.start location settings (s, [])) where
  balanced := .start location settings _
  standing := .ofLocation location settings

theorem work (h : c.Stands retries) (store : Store σ) : c.Advances (c.work store.logged) := by
  rcases c.work_cases store.logged with he | ⟨t, t', v', ht, hstep, he⟩
  · rw [he]
    exact ⟨rfl, h.standing⟩
  · rw [he]
    exact ⟨rfl, h.standing.transition h.balanced.reader ht hstep⟩

/-- A call returns at once, or begins to wait. -/
theorem call (h : c.Stands retries) (n : Nat) :
    c.Advances (c.call n) ∨ ∃ y, c.Returns (.call n) (c.call n) y := by
  unfold Course.call
  split
  · rename_i hn
    exact .inr ⟨_, rfl, .inl ⟨by rw [hn], rfl, rfl, rfl⟩⟩
  · rename_i hn
    have hcall : Act.call n ≠ .call 0 := fun he => hn (Act.call.inj he)
    cases hfailed : c.reader.failed with
    | some e => exact .inr ⟨_, rfl, .inr ⟨hcall, .again hfailed rfl rfl⟩⟩
    | none =>
      dsimp only
      split
      · exact .inl ⟨rfl, h.standing⟩
      · rename_i hready
        refine .inr ⟨_, rfl, .inr ⟨hcall, .taken hfailed h.standing hfailed (fun hq => ?_) hn⟩⟩
        simpa [hq] using hready

/-- A read that waits takes the next signal, or times out. -/
theorem hear (h : c.Stands retries) (hstage : c.stage = .waiting n before) :
    c.Advances (c.go n before c.reader.heard) ∨
      ∃ y, c.Returns .hear (c.go n before c.reader.heard) y := by
  obtain ⟨hn, hpending, -, t, ht, -⟩ := h.balanced.hears hstage
  have hhear : Act.hear ≠ .call 0 := fun he => by cases he
  have hheard : c.reader.heard = c.reader.hear t := by simp only [heard, ht]
  have htold : Told False c.outside.2 c.reader.heard := by
    cases h.standing with
    | idle _ _ hnone => cases hnone.symm.trans ht
    | going _ _ ht' _ hbound =>
      obtain rfl := Option.some.inj (ht'.symm.trans ht)
      rw [hheard]
      exact hbound.hear hpending.failed hpending.finished hpending.queue False.elim
    | finished _ hdone => cases hpending.finished.symm.trans hdone
    | failed hdone => cases hpending.failed.symm.trans hdone
  generalize c.reader.heard = x at htold
  cases htold with
  | ready h' hfailed hready =>
    exact .inr ⟨_, rfl, .inr ⟨hhear, .taken hpending.failed h' hfailed hready hn⟩⟩
  | restarted h' => exact .inl ⟨rfl, h'⟩
  | timedOut hk hfailed h' =>
    exact .inr ⟨_, rfl, .inr ⟨hhear, .timedOut hpending.failed h' hfailed hk⟩⟩
  | failed hfailed hv h' => exact .inr ⟨_, rfl, .inr ⟨hhear, .failed hpending.failed hfailed hv h'⟩⟩

/-- An act returns nothing, or what the read comes to that it ends. -/
theorem advances_or_returns (h : c.Stands retries) (store : Store σ) (a : Act) :
    c.Advances (c.act store.logged a) ∨ ∃ y, c.Returns a (c.act store.logged a) y := by
  cases a with
  | work => exact .inl (h.work store)
  | call n =>
    cases hstage : c.stage with
    | resting =>
      rw [Course.act_call store.logged hstage]
      exact h.call n
    | granting | waiting =>
      simp only [Course.act, hstage]
      exact .inl ⟨rfl, h.standing⟩
  | grant =>
    cases hstage : c.stage with
    | granting n before =>
      rw [Course.act_grant store.logged hstage]
      exact .inl ⟨rfl, h.standing.replenish⟩
    | resting | waiting =>
      simp only [Course.act, hstage]
      exact .inl ⟨rfl, h.standing⟩
  | hear =>
    cases hstage : c.stage with
    | waiting n before =>
      rw [Course.act_hear store.logged hstage]
      exact h.hear hstage
    | resting | granting =>
      simp only [Course.act, hstage]
      exact .inl ⟨rfl, h.standing⟩

/-- Every act leaves a reader standing. -/
theorem act (h : c.Stands retries) (store : Store σ) (a : Act) :
    (c.act store.logged a).Stands retries := by
  refine ⟨h.balanced.act store.logged a, ?_⟩
  rcases h.advances_or_returns store a with ⟨-, hstanding⟩ | ⟨y, -, hread⟩
  · exact hstanding
  · rcases hread with ⟨-, -, hreader, houtside⟩ | ⟨-, hgot⟩
    · rw [hreader, houtside]
      exact h.standing
    · exact h.standing.of_got hgot

/-- Where a reader stands in any course. -/
theorem run (h : c.Stands retries) (store : Store σ) (acts : List Act) :
    (c.run store.logged acts).Stands retries := by
  induction acts generalizing c with
  | nil => exact h
  | cons a acts ih => exact ih (h.act store a)

/-- What an act has added to the results it returns. -/
theorem returns_of_results (h : c.Stands retries) (store : Store σ) (a : Act)
    (hy : (c.act store.logged a).results = c.results ++ [y]) :
    c.Returns a (c.act store.logged a) y := by
  rcases h.advances_or_returns store a with ⟨hsame, -⟩ | ⟨z, hz⟩
  · simp [hsame] at hy
  · obtain ⟨-, hlast⟩ := List.append_inj' (hy.symm.trans hz.1) rfl
    cases hlast
    exact hz

end Course.Stands

end QueryResults.Download.Reader
