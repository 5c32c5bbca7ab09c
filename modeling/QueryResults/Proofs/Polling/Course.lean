import Mathlib.Data.Nat.Find
import QueryResults.Polling
import QueryResults.Proofs.Polling.Delay

/-!
# The course of a poll

On a clock that wakes a poll exactly when its wait is over, the moments of the checks are known in
advance: every check comes the wait of its number after the one before. After each check a poll
ends or goes on, and which of the two happens is known as well. It goes on if the check reports
nothing and the token is not cancelled before the wait is over. So a poll is decided by the first
check of which this is not true, and nothing that comes later matters.

`run` tells nothing of a poll that does not end. `course` tells of any poll what can be seen of it
within some checks, and `run` is what it tells of a poll that has ended.

## Main definitions

* `Polling.checkTime`: when a check is made, if the poll gets as far.
* `Polling.Course`, `Polling.course`: the checks made and the end, if there is one.
* `Polling.Decides`: how a poll ends with a check.
* `Polling.Cancellation.Reaches`: the token is cancelled before the wait after a check is over.
* `Polling.Waits`, `Polling.EndsAt`: a poll goes on after a check, or ends with it.

## Main results

* `Polling.run_eq_course`: a run is a course that has ended.
* `Polling.waits_or_endsAt`: what one check does.
* `Polling.courseFrom_cases`: what any number of checks do.
* `Polling.keeps_course`: the course of every poll.
-/

namespace QueryResults.Polling

variable {α : Type}

/-! ### Courses -/

/-- What is seen of a poll: when its checks were made, and when and how it ended, if it did. -/
structure Course (α : Type) where
  checkedAt : List Duration
  ended : Option (Duration × Except Failure (Option α))

namespace Course

/-- A course with one check before. -/
def after (now : Duration) (rest : Course α) : Course α :=
  { rest with checkedAt := now :: rest.checkedAt }

/-- The run that a course is, if it has ended. -/
def run? (course : Course α) : Option (Run α) :=
  course.ended.map fun (endedAt, result) =>
    { checkedAt := course.checkedAt, endedAt := endedAt, result := result }

end Course

/-- A poll from the check numbered `attempt` on, made at `now`, as far as its next `limit`
checks. -/
def courseFrom (timer : Timer) (pacing : Pacing) (checks : Nat → Except Failure (Outcome α))
    (cancellation : Cancellation) : Nat → Nat → Duration → Course α
  | 0, _, _ => ⟨[], none⟩
  | limit + 1, attempt, now =>
    match judge pacing attempt (checks attempt) with
    | .finish result => ⟨[now], some (now, result.map some)⟩
    | .wait span =>
      let wakes : Duration := ⟨now.nanos + (timer.lasts span).nanos⟩
      match cancellation.cut attempt now wakes with
      | some moment => ⟨[now], some (moment, .ok none)⟩
      | none => (courseFrom timer pacing checks cancellation limit (attempt + 1) wakes).after now

/-- A poll that starts at time zero, as far as its first `limit` checks. -/
def course (timer : Timer) (pacing : Pacing) (checks : Nat → Except Failure (Outcome α))
    (cancellation : Cancellation) (limit : Nat) : Course α :=
  courseFrom timer pacing checks cancellation limit 0 .zero

section Run

variable (timer : Timer) (pacing : Pacing) (checks : Nat → Except Failure (Outcome α))
  (c : Cancellation)

theorem runFrom_eq_courseFrom (limit attempt : Nat) (now : Duration) :
    runFrom timer pacing checks c limit attempt now =
      (courseFrom timer pacing checks c limit attempt now).run? := by
  induction limit generalizing attempt now with
  | zero => rfl
  | succ limit ih =>
    unfold runFrom courseFrom
    cases judge pacing attempt (checks attempt) with
    | finish result => rfl
    | wait span =>
      dsimp only
      cases c.cut attempt now _ with
      | some moment => rfl
      | none =>
        simp only [ih, Course.run?, Course.after, Option.map_map]
        rfl

/-- A run is a course that has ended. -/
theorem run_eq_course (limit : Nat) :
    run timer pacing checks c limit = (course timer pacing checks c limit).run? :=
  runFrom_eq_courseFrom timer pacing checks c limit 0 .zero

end Run

/-! ### Moments -/

/-- When the check numbered `k` is made, if a poll on an exact clock gets as far: at time zero, or
the wait of its number after the one before. -/
def checkTime (pacing : Pacing) : Nat → Duration
  | 0 => .zero
  | k + 1 => ⟨(checkTime pacing k).nanos + (pacing.delay k).nanos⟩

theorem checkTime_mono (pacing : Pacing) : Monotone fun k => (checkTime pacing k).nanos :=
  monotone_nat_of_le_succ fun _ => Nat.le_add_right _ _

namespace Cancellation

variable {c : Cancellation} {pacing : Pacing} {k : Nat}

/-- The moment of the cancellation, if the poll gets as far. -/
def moment? (c : Cancellation) (pacing : Pacing) : Option Duration :=
  match c.duringCheck, c.atTime with
  | some j, some t => some ⟨min (checkTime pacing j).nanos t.nanos⟩
  | some j, none => some (checkTime pacing j)
  | none, t => t

/-- The token is cancelled before the wait after the check numbered `k` is over: during this check
or an earlier one, before the poll starts, or at a moment before that of the next check. -/
def Reaches (c : Cancellation) (pacing : Pacing) (k : Nat) : Prop :=
  (∃ j, c.duringCheck = some j ∧ j ≤ k) ∨
    ∃ t, c.atTime = some t ∧ (t.nanos = 0 ∨ t.nanos < (checkTime pacing (k + 1)).nanos)

theorem precedes_iff :
    c.precedes k = true ↔
      (∃ j, c.duringCheck = some j ∧ j ≤ k) ∨ ∃ t, c.atTime = some t ∧ t.nanos = 0 := by
  simp [precedes, Option.any_eq_true]

/-- A wait is reached by a cancellation that comes before the end of its check whatever the clock
says, or by one that comes before its own end. -/
theorem reaches_iff :
    c.Reaches pacing k ↔ c.precedes k = true ∨
      ∃ t, c.atTime = some t ∧ t.nanos < (checkTime pacing (k + 1)).nanos := by
  simp only [Reaches, precedes_iff, and_or_left, exists_or, or_assoc]

/-- A wait that the cancellation does not reach is not cut short. -/
theorem cut_eq_none (h : ¬ c.Reaches pacing k) :
    c.cut k (checkTime pacing k) (checkTime pacing (k + 1)) = none := by
  obtain ⟨hprecedes, htime⟩ := not_or.1 (reaches_iff.not.1 h)
  unfold cut
  rw [if_neg hprecedes]
  cases ht : c.atTime with
  | none => rfl
  | some t =>
    have : ¬ t.nanos < (checkTime pacing (k + 1)).nanos := fun hlt => htime ⟨t, ht, hlt⟩
    simp [Option.filter, this]

/-- A cancellation before or during a check comes no later than the check. -/
theorem exists_moment_le (pacing : Pacing) (h : c.precedes k = true) :
    ∃ t, c.moment? pacing = some t ∧ t.nanos ≤ (checkTime pacing k).nanos := by
  unfold moment?
  rcases precedes_iff.1 h with ⟨j, hj, hle⟩ | ⟨t, ht, hzero⟩
  · have hmono := checkTime_mono pacing hle
    rw [hj]
    cases c.atTime with
    | none => exact ⟨_, rfl, hmono⟩
    | some t => exact ⟨_, rfl, Nat.le_trans (Nat.min_le_left _ _) hmono⟩
  · rw [ht]
    cases c.duringCheck with
    | none => exact ⟨t, rfl, by omega⟩
    | some j => exact ⟨_, rfl, by simp only [hzero, Nat.min_zero, Nat.zero_le]⟩

/-- A cancellation at a moment before the next check comes before any later check is made. -/
theorem moment_of_not_precedes (h : ¬ c.precedes k = true) {t : Duration}
    (ht : c.atTime = some t) (hlt : t.nanos < (checkTime pacing (k + 1)).nanos) :
    c.moment? pacing = some t := by
  unfold moment?
  rw [ht]
  cases hj : c.duringCheck with
  | none => rfl
  | some j =>
    have hkj : k + 1 ≤ j := Nat.lt_of_not_le fun hle => h (precedes_iff.2 (.inl ⟨j, hj, hle⟩))
    have hmono := checkTime_mono pacing hkj
    simp only [Nat.min_eq_right (Nat.le_trans hlt.le hmono)]

/-- A wait that the cancellation reaches is cut short at the later of the check before it and the
cancellation. -/
theorem exists_cut_eq_some (h : c.Reaches pacing k) :
    ∃ t, c.moment? pacing = some t ∧
      c.cut k (checkTime pacing k) (checkTime pacing (k + 1)) =
        some ⟨max (checkTime pacing k).nanos t.nanos⟩ := by
  unfold cut
  by_cases hprecedes : c.precedes k = true
  · obtain ⟨t, ht, hle⟩ := exists_moment_le pacing hprecedes
    exact ⟨t, ht, by rw [if_pos hprecedes, Nat.max_eq_left hle]⟩
  · obtain ⟨t, ht, hlt⟩ := (reaches_iff.1 h).resolve_left hprecedes
    refine ⟨t, moment_of_not_precedes hprecedes ht hlt, ?_⟩
    rw [if_neg hprecedes, ht]
    simp [Option.filter, hlt]

end Cancellation

/-! ### One check -/

/-- How a poll ends with a check that reports something, whatever the token. -/
inductive Decides : Except Failure (Outcome α) → Except Failure (Option α) → Prop
  | completed (value : α) : Decides (.ok (.completed value)) (.ok (some value))
  | failed (reason : String) :
      Decides (.ok (.failed reason)) (.error { kind := .queryFailed, message := reason })
  | canceled (reason : String) :
      Decides (.ok (.canceled reason)) (.error { kind := .queryCanceled, message := reason })
  | error (e : Failure) : Decides (.error e) (.error e)

/-- A poll goes on after the check numbered `k`. -/
structure Waits (pacing : Pacing) (checks : Nat → Except Failure (Outcome α)) (c : Cancellation)
    (k : Nat) : Prop where
  pending : checks k = .ok .pending
  unreached : ¬ c.Reaches pacing k

/-- A poll ends with the check numbered `k`, at a moment and with a result. -/
inductive EndsAt (pacing : Pacing) (checks : Nat → Except Failure (Outcome α)) (c : Cancellation)
    (k : Nat) : Duration → Except Failure (Option α) → Prop
  | decided {result : Except Failure (Option α)} (h : Decides (checks k) result) :
      EndsAt pacing checks c k (checkTime pacing k) result
  | interrupted {t : Duration} (hpending : checks k = .ok .pending) (hreaches : c.Reaches pacing k)
      (ht : c.moment? pacing = some t) :
      EndsAt pacing checks c k ⟨max (checkTime pacing k).nanos t.nanos⟩ (.ok none)

variable {pacing : Pacing} {checks : Nat → Except Failure (Outcome α)} {c : Cancellation} {k : Nat}

/-- A check either reports nothing or decides the poll. -/
theorem pending_or_decides (pacing : Pacing) (attempt : Nat) (x : Except Failure (Outcome α)) :
    (x = .ok .pending ∧ judge pacing attempt x = .wait (pacing.delay attempt)) ∨
      ∃ result, judge pacing attempt x = .finish result ∧ Decides x (result.map some) := by
  rcases x with e | (_ | value | reason | reason)
  · exact .inr ⟨_, rfl, .error e⟩
  · exact .inl ⟨rfl, rfl⟩
  · exact .inr ⟨_, rfl, .completed value⟩
  · exact .inr ⟨_, rfl, .failed reason⟩
  · exact .inr ⟨_, rfl, .canceled reason⟩

theorem Decides.ne_pending {x : Except Failure (Outcome α)} {result : Except Failure (Option α)}
    (h : Decides x result) : x ≠ .ok .pending := by
  cases h <;> simp

theorem Decides.ne_none {x : Except Failure (Outcome α)} {result : Except Failure (Option α)}
    (h : Decides x result) : result ≠ .ok none := by
  cases h <;> simp

theorem EndsAt.not_waits {t : Duration} {result : Except Failure (Option α)}
    (h : EndsAt pacing checks c k t result) : ¬ Waits pacing checks c k := by
  intro hwaits
  cases h with
  | decided h => exact h.ne_pending hwaits.pending
  | interrupted _ hreaches => exact hwaits.unreached hreaches

/-- After a check a poll on an exact clock goes on with the next, or it ends. -/
theorem waits_or_endsAt (pacing : Pacing) (checks : Nat → Except Failure (Outcome α))
    (c : Cancellation) (limit k : Nat) :
    (Waits pacing checks c k ∧
      courseFrom .exact pacing checks c (limit + 1) k (checkTime pacing k) =
        (courseFrom .exact pacing checks c limit (k + 1) (checkTime pacing (k + 1))).after
          (checkTime pacing k)) ∨
    ∃ t result, EndsAt pacing checks c k t result ∧
      courseFrom .exact pacing checks c (limit + 1) k (checkTime pacing k) =
        ⟨[checkTime pacing k], some (t, result)⟩ := by
  rw [courseFrom]
  rcases pending_or_decides pacing k (checks k) with ⟨hpending, hjudge⟩ | ⟨result, hjudge, hdecides⟩
  · rw [hjudge]
    by_cases hreaches : c.Reaches pacing k
    · obtain ⟨t, ht, hcut⟩ := c.exists_cut_eq_some hreaches
      refine .inr ⟨_, _, .interrupted hpending hreaches ht, ?_⟩
      rw [checkTime] at hcut
      simp only [Timer.lasts_exact, hcut]
    · have hcut := Cancellation.cut_eq_none hreaches
      refine .inl ⟨⟨hpending, hreaches⟩, ?_⟩
      rw [checkTime] at hcut ⊢
      simp only [Timer.lasts_exact, hcut]
  · rw [hjudge]
    exact .inr ⟨_, _, .decided hdecides, rfl⟩

/-! ### All checks -/

/-- The moments of `n` checks from the one numbered `k` on. -/
def checkTimes (pacing : Pacing) (k n : Nat) : List Duration :=
  (List.range' k n).map (checkTime pacing)

/-- A poll goes on after each of the checks it is followed for, or it ends with the first after
which it does not go on. -/
theorem courseFrom_cases (pacing : Pacing) (checks : Nat → Except Failure (Outcome α))
    (c : Cancellation) (limit k : Nat) :
    ((∀ i < limit, Waits pacing checks c (k + i)) ∧
      courseFrom .exact pacing checks c limit k (checkTime pacing k) =
        ⟨checkTimes pacing k limit, none⟩) ∨
    ∃ m < limit, ∃ t result, (∀ i < m, Waits pacing checks c (k + i)) ∧
      EndsAt pacing checks c (k + m) t result ∧
      courseFrom .exact pacing checks c limit k (checkTime pacing k) =
        ⟨checkTimes pacing k (m + 1), some (t, result)⟩ := by
  induction limit generalizing k with
  | zero => exact .inl ⟨fun i hi => absurd hi (Nat.not_lt_zero i), rfl⟩
  | succ limit ih =>
    have later : ∀ {n}, Waits pacing checks c k → (∀ i < n, Waits pacing checks c (k + 1 + i)) →
        ∀ i < n + 1, Waits pacing checks c (k + i) := by
      intro n hfirst hrest i hi
      cases i with
      | zero => exact hfirst
      | succ i =>
        have := hrest i (Nat.lt_of_succ_lt_succ hi)
        rwa [Nat.add_right_comm] at this
    rcases waits_or_endsAt pacing checks c limit k with ⟨hwaits, heq⟩ | ⟨t, result, hends, heq⟩
    · rcases ih (k + 1) with ⟨hall, hrest⟩ | ⟨m, hm, t, result, hall, hends, hrest⟩
      · exact .inl ⟨later hwaits hall, by rw [heq, hrest]; rfl⟩
      · refine .inr ⟨m + 1, Nat.succ_lt_succ hm, t, result, later hwaits hall, ?_, ?_⟩
        · rwa [Nat.add_right_comm] at hends
        · rw [heq, hrest]
          rfl
    · exact .inr ⟨0, Nat.succ_pos _, t, result, fun i hi => absurd hi (Nat.not_lt_zero i), hends,
        heq⟩

theorem course_cases (pacing : Pacing) (checks : Nat → Except Failure (Outcome α))
    (c : Cancellation) (limit : Nat) :
    ((∀ i < limit, Waits pacing checks c i) ∧
      course .exact pacing checks c limit = ⟨checkTimes pacing 0 limit, none⟩) ∨
    ∃ m < limit, ∃ t result, (∀ i < m, Waits pacing checks c i) ∧
      EndsAt pacing checks c m t result ∧
      course .exact pacing checks c limit = ⟨checkTimes pacing 0 (m + 1), some (t, result)⟩ := by
  have hcases := courseFrom_cases pacing checks c limit 0
  simp only [Nat.zero_add] at hcases
  exact hcases

section Course

variable {limit m : Nat}

/-- Whatever becomes of a poll, its checks are made at their moments. -/
theorem exists_checkedAt_eq (pacing : Pacing) (checks : Nat → Except Failure (Outcome α))
    (c : Cancellation) (limit : Nat) :
    ∃ n ≤ limit, (course .exact pacing checks c limit).checkedAt = checkTimes pacing 0 n ∧
      ((course .exact pacing checks c limit).ended = none → n = limit) := by
  rcases course_cases pacing checks c limit with ⟨-, heq⟩ | ⟨m, hm, t, result, -, -, heq⟩
  · exact ⟨limit, le_rfl, congrArg Course.checkedAt heq, fun _ => rfl⟩
  · refine ⟨m + 1, hm, congrArg Course.checkedAt heq, fun hnone => ?_⟩
    rw [heq] at hnone
    cases hnone

/-- A poll that has gone on after all its checks has not ended. -/
theorem course_of_waits (h : ∀ i < limit, Waits pacing checks c i) :
    course .exact pacing checks c limit = ⟨checkTimes pacing 0 limit, none⟩ := by
  rcases course_cases pacing checks c limit with ⟨-, heq⟩ | ⟨m, hm, t, result, -, hends, -⟩
  · exact heq
  · exact absurd (h m hm) hends.not_waits

/-- A poll ends with the first check after which it does not go on. -/
theorem exists_course_of_not_waits (h : ∀ i < m, Waits pacing checks c i)
    (hm : ¬ Waits pacing checks c m) (hlimit : m < limit) :
    ∃ t result, EndsAt pacing checks c m t result ∧
      course .exact pacing checks c limit = ⟨checkTimes pacing 0 (m + 1), some (t, result)⟩ := by
  rcases course_cases pacing checks c limit with ⟨hall, -⟩ | ⟨n, -, t, result, hall, hends, heq⟩
  · exact absurd (hall m hlimit) hm
  · rcases Nat.lt_trichotomy m n with hlt | rfl | hgt
    · exact absurd (hall m hlt) hm
    · exact ⟨t, result, hends, heq⟩
    · exact absurd (h n hgt) hends.not_waits

theorem exists_run_of_decided (h : ∀ i < m, Waits pacing checks c i)
    (hm : checks m ≠ .ok .pending) (hlimit : m < limit) :
    ∃ result, Decides (checks m) result ∧ run .exact pacing checks c limit =
      some ⟨checkTimes pacing 0 (m + 1), checkTime pacing m, result⟩ := by
  obtain ⟨t, result, hends, heq⟩ :=
    exists_course_of_not_waits h (fun hwaits => hm hwaits.pending) hlimit
  rw [run_eq_course, heq]
  cases hends with
  | decided hdecides => exact ⟨result, hdecides, rfl⟩
  | interrupted hpending => exact absurd hpending hm

theorem exists_run_of_reached (hpending : ∀ i ≤ m, checks i = .ok .pending)
    (hm : c.Reaches pacing m) (h : ∀ i < m, ¬ c.Reaches pacing i) (hlimit : m < limit) :
    ∃ t, c.moment? pacing = some t ∧ run .exact pacing checks c limit =
      some ⟨checkTimes pacing 0 (m + 1), ⟨max (checkTime pacing m).nanos t.nanos⟩, .ok none⟩ := by
  have hwaits : ∀ i < m, Waits pacing checks c i := fun i hi => ⟨hpending i hi.le, h i hi⟩
  obtain ⟨t, result, hends, heq⟩ :=
    exists_course_of_not_waits hwaits (fun hwaits => hwaits.unreached hm) hlimit
  rw [run_eq_course, heq]
  cases hends with
  | decided hdecides => exact absurd (hpending m le_rfl) hdecides.ne_pending
  | interrupted _ _ ht => exact ⟨_, ht, rfl⟩

/-- A run without a result was interrupted in the wait after a check that is made. -/
theorem exists_reached_of_run {r : Run α} (h : run .exact pacing checks c limit = some r)
    (hr : r.result = .ok none) :
    ∃ k, (∀ i ≤ k, checks i = .ok .pending) ∧ c.Reaches pacing k := by
  rw [run_eq_course] at h
  rcases course_cases pacing checks c limit with
    ⟨-, heq⟩ | ⟨m, -, t, result, hall, hends, heq⟩
  · rw [heq] at h
    cases h
  · rw [heq] at h
    cases h
    cases hends with
    | decided hdecides => exact absurd hr hdecides.ne_none
    | interrupted hpending hreaches =>
      refine ⟨m, fun i hi => ?_, hreaches⟩
      rcases Nat.lt_or_eq_of_le hi with hlt | rfl
      · exact (hall i hlt).pending
      · exact hpending

/-- A poll is interrupted if and only if the cancellation reaches the wait after some check that is
made. -/
theorem exists_run_iff_exists_reached :
    (∃ limit r, run .exact pacing checks c limit = some r ∧ r.result = .ok none) ↔
      ∃ k, (∀ i ≤ k, checks i = .ok .pending) ∧ c.Reaches pacing k := by
  classical
  constructor
  · rintro ⟨limit, r, hrun, hr⟩
    exact exists_reached_of_run hrun hr
  · rintro ⟨k, hpending, hk⟩
    -- The first wait that is reached is no later than the one given.
    have hex : ∃ n, c.Reaches pacing n := ⟨k, hk⟩
    have hfirst : Nat.find hex ≤ k := Nat.find_min' hex hk
    obtain ⟨t, -, hrun⟩ := exists_run_of_reached
      (fun i hi => hpending i (Nat.le_trans hi hfirst)) (Nat.find_spec hex)
      (fun i hi => Nat.find_min hex hi) (Nat.lt_succ_self _)
    exact ⟨_, _, hrun, rfl⟩

end Course

/-! ### Gaps between checks -/

/-- The spans between moments that follow one another. -/
def gaps : List Duration → List Nat
  | now :: next :: rest => (next.nanos - now.nanos) :: gaps (next :: rest)
  | _ => []

theorem gaps_checkTimes (pacing : Pacing) (k n : Nat) :
    gaps (checkTimes pacing k (n + 1)) =
      (List.range' k n).map fun i => (pacing.delay i).nanos := by
  induction n generalizing k with
  | zero => rfl
  | succ n ih =>
    have hcons : checkTimes pacing k (n + 1 + 1) =
        checkTime pacing k :: checkTime pacing (k + 1) :: checkTimes pacing (k + 1 + 1) n := rfl
    have hrest : gaps (checkTime pacing (k + 1) :: checkTimes pacing (k + 1 + 1) n) =
        (List.range' (k + 1) n).map fun i => (pacing.delay i).nanos := ih (k + 1)
    rw [hcons, gaps, hrest, List.range'_succ, List.map_cons, checkTime, Nat.add_sub_cancel_left]

/-- The gaps between checks are waits that follow one another. -/
theorem exists_gaps_eq (pacing : Pacing) (n : Nat) :
    ∃ k, gaps (checkTimes pacing 0 n) = (List.range k).map fun i => (pacing.delay i).nanos := by
  cases n with
  | zero => exact ⟨0, rfl⟩
  | succ n => exact ⟨n, by rw [gaps_checkTimes, List.range_eq_range']⟩

theorem pairwise_gaps (pacing : Pacing) (n : Nat) :
    (gaps (checkTimes pacing 0 n)).Pairwise (· ≤ ·) := by
  obtain ⟨k, hk⟩ := exists_gaps_eq pacing n
  rw [hk, List.pairwise_map]
  exact List.pairwise_lt_range.imp fun hlt => pacing.delay_mono hlt.le

theorem gap_le_cap {initial cap : Duration} {factor : UInt32} {n gap : Nat}
    (h : gap ∈ gaps (checkTimes (.growing initial factor cap) 0 n)) : gap ≤ cap.nanos := by
  obtain ⟨k, hk⟩ := exists_gaps_eq (.growing initial factor cap) n
  rw [hk] at h
  obtain ⟨i, -, rfl⟩ := List.mem_map.1 h
  exact Pacing.delay_le_max initial cap factor i

/-- The course of a poll on an exact clock. -/
structure KeepsCourse (pacing : Pacing) (checks : Nat → Except Failure (Outcome α))
    (c : Cancellation) : Prop where
  /-- A run is a course that has ended. -/
  run_eq : ∀ limit, run .exact pacing checks c limit = (course .exact pacing checks c limit).run?
  /-- The first check is made at time zero, and the others are made after exactly the waits of
  their numbers. A poll that has not ended has made all the checks it was followed for. -/
  times : ∀ limit, ∃ n ≤ limit,
    (course .exact pacing checks c limit).checkedAt = checkTimes pacing 0 n ∧
      ((course .exact pacing checks c limit).ended = none → n = limit)
  /-- After a check that reports nothing, and whose wait the cancellation does not reach, the next
  is made. -/
  goes_on : ∀ limit, (∀ i < limit, checks i = .ok .pending ∧ ¬ c.Reaches pacing i) →
    course .exact pacing checks c limit = ⟨checkTimes pacing 0 limit, none⟩
  /-- The number of a check may be kept in 32 bits, where it stays at the largest. -/
  count : ∀ k, pacing.delay (min k (UInt32.size - 1)) = pacing.delay k
  /-- The first check that reports something ends the poll with what it reports, if the
  cancellation reaches none of the waits before, and no check is made after it. -/
  decided : ∀ m, (∀ i < m, checks i = .ok .pending ∧ ¬ c.Reaches pacing i) →
    checks m ≠ .ok .pending → ∀ limit > m, ∃ result, Decides (checks m) result ∧
      run .exact pacing checks c limit =
        some ⟨checkTimes pacing 0 (m + 1), checkTime pacing m, result⟩
  /-- A poll ends without a result if and only if the cancellation reaches the wait after some
  check that is made and reports nothing. -/
  interrupted_iff : (∃ limit r, run .exact pacing checks c limit = some r ∧ r.result = .ok none) ↔
    ∃ k, (∀ i ≤ k, checks i = .ok .pending) ∧ c.Reaches pacing k
  /-- It ends in the first wait that the cancellation reaches, at the later of the check before it
  and the cancellation. -/
  interrupted_at : ∀ k, (∀ i ≤ k, checks i = .ok .pending) → c.Reaches pacing k →
    (∀ i < k, ¬ c.Reaches pacing i) → ∀ limit > k, ∃ t, c.moment? pacing = some t ∧
      run .exact pacing checks c limit =
        some ⟨checkTimes pacing 0 (k + 1), ⟨max (checkTime pacing k).nanos t.nanos⟩, .ok none⟩
  /-- Where the waits grow, no gap between checks is shorter than the one before, and none is longer
  than the cap. -/
  growing : ∀ initial factor cap, pacing = .growing initial factor cap → ∀ limit,
    (gaps (course .exact pacing checks c limit).checkedAt).Pairwise (· ≤ ·) ∧
      ∀ gap ∈ gaps (course .exact pacing checks c limit).checkedAt, gap ≤ cap.nanos

/-- Every poll on an exact clock keeps its course, whatever its pacing, its checks and the moment of
its cancellation. -/
theorem keeps_course (pacing : Pacing) (checks : Nat → Except Failure (Outcome α))
    (c : Cancellation) : KeepsCourse pacing checks c where
  run_eq := run_eq_course .exact pacing checks c
  times := exists_checkedAt_eq pacing checks c
  goes_on _ h := course_of_waits fun i hi => ⟨(h i hi).1, (h i hi).2⟩
  count := pacing.delay_min_count
  decided _ h hm _ hlimit := exists_run_of_decided (fun i hi => ⟨(h i hi).1, (h i hi).2⟩) hm hlimit
  interrupted_iff := exists_run_iff_exists_reached
  interrupted_at _ hpending hk h _ hlimit := exists_run_of_reached hpending hk h hlimit
  growing := by
    rintro initial factor cap rfl limit
    obtain ⟨n, -, hchecked, -⟩ := exists_checkedAt_eq (.growing initial factor cap) checks c limit
    rw [hchecked]
    exact ⟨pairwise_gaps _ n, fun gap hgap => gap_le_cap hgap⟩

example : run .exact (.fixed (.ofSeconds 30)) (fun _ => .ok .pending)
      { atTime := some (.ofSeconds 65) } 9 =
    some (⟨[.zero, .ofSeconds 30, .ofSeconds 60], .ofSeconds 65, .ok none⟩ : Run Unit) := rfl

end QueryResults.Polling
