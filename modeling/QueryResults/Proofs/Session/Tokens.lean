import QueryResults.Proofs.Session.Floor

/-!
# The tokens of a session

Which token is cancelled by what is a matter of their numbers. Every token gets a number of its own
when it is issued, and only three kinds of numbers are ever cancelled: those of roots that were
taken away, those of tokens that readers have had, and none else. So the root in place is not
cancelled, and neither is a token that nobody was given but the wait that began with it.

A token stands below the root that was in place when it was issued. When another root is put in
place, the old one is retired until it is cancelled, so a token below a root that is neither in
place nor retired is cancelled.

## Main definitions

* `Session.Tokens`, `Tokens.Step`, `Tokens.Reach`: the tokens of a floor, and what becomes of them.
* `Tokens.Clear`: what holds of them at any time.
* `Tokens.Onward`: what is kept from one time to another.
* `Tokens.Below`, `Tokens.Private`: tokens below a root, and those of a wait.
* `Tokens.Since`: tokens that were issued from one time to another.

## Main results

* `Clear.reach`, `Clear.cancel`, `Clear.onward`, `Onward.cancel`.
* `Below.isCancelled`: below a root that is gone everything is cancelled.
* `Since.isCancelled_eq_false`: what was issued below a root that is in place is not.
-/

namespace QueryResults.Session

/-- The tokens of a session: the interrupts, the roots taken away and not yet cancelled, and the
tokens that readers have had. -/
structure Tokens where
  interrupts : Interrupts
  retired : List Token
  handed : List Token

namespace Tokens

/-- The numbers of the root in place and of those taken away. -/
def roots (t : Tokens) : List Nat := t.interrupts.root.number :: t.retired.map Token.number

/-- A token is cancelled. -/
def cancel (u : Token) (t : Tokens) : Tokens := { t with interrupts := t.interrupts.cancel u }

/-- What becomes of the tokens, but for the cancelling of one that was handed out. -/
inductive Step : Tokens → Tokens → Prop
  /-- A new root is put in place. -/
  | replace (t : Tokens) :
      Step t
        { t with
          interrupts := t.interrupts.replace
          retired := t.retired ++ [t.interrupts.root] }
  /-- A root that was taken away is cancelled. -/
  | strike (t : Tokens) (n : Nat) (u : Token) (hu : t.retired[n]? = some u) :
      Step t { t with interrupts := t.interrupts.cancel u, retired := t.retired.eraseIdx n }
  /-- A token is issued to a wait, or to nobody. -/
  | issue (t : Tokens) :
      Step t { t with interrupts := { t.interrupts with issued := t.interrupts.issued + 1 } }
  /-- A token is issued to a reader. -/
  | hand (t : Tokens) (u : Token) (hu : u.number = t.interrupts.issued) :
      Step t
        { t with
          interrupts := { t.interrupts with issued := t.interrupts.issued + 1 }
          handed := t.handed ++ [u] }

/-- Any number of steps. -/
def Reach : Tokens → Tokens → Prop := Relation.ReflTransGen Step

/-- A whole call of `interrupt`. -/
theorem reach_interruptAll (t : Tokens) :
    Reach t { t with interrupts := t.interrupts.interruptAll } := by
  have hstrike := Step.strike
    { t with interrupts := t.interrupts.replace, retired := t.retired ++ [t.interrupts.root] }
    t.retired.length t.interrupts.root (List.getElem?_concat_length ..)
  rw [show (t.retired ++ [t.interrupts.root]).eraseIdx t.retired.length = t.retired by
    rw [List.eraseIdx_append_of_length_le (Nat.le_refl _), Nat.sub_self, List.eraseIdx_cons_zero,
      List.append_nil]] at hstrike
  exact .tail (.single (.replace t)) hstrike

variable {t t' t'' : Tokens} {u : Token}

/-! ### Numbers -/

/-- What holds of the tokens at any time. -/
structure Clear (t : Tokens) : Prop where
  root : t.interrupts.root.above = []
  live : t.interrupts.root.number ∉ t.interrupts.cancelled
  rootIssued : t.interrupts.root.number < t.interrupts.issued
  older : ∀ u ∈ t.retired, u.number < t.interrupts.root.number
  cancelledIssued : ∀ n ∈ t.interrupts.cancelled, n < t.interrupts.issued
  handedIssued : ∀ u ∈ t.handed, u.number < t.interrupts.issued
  apart : ∀ u ∈ t.handed, u.number ∉ t.roots
  unique : (t.handed.map Token.number).Nodup

theorem Clear.le_root (h : t.Clear) {n : Nat} (hn : n ∈ t.roots) :
    n ≤ t.interrupts.root.number := by
  rcases List.mem_cons.1 hn with rfl | hn
  · exact Nat.le_refl _
  · obtain ⟨u, hu, rfl⟩ := List.mem_map.1 hn
    exact Nat.le_of_lt (h.older u hu)

theorem Clear.roots_lt (h : t.Clear) {n : Nat} (hn : n ∈ t.roots) : n < t.interrupts.issued :=
  Nat.lt_of_le_of_lt (h.le_root hn) h.rootIssued

/-- Roots are known by their numbers. -/
theorem Clear.root_ne (h : t.Clear) (h' : t'.Clear)
    (hroot : t'.interrupts.root ≠ t.interrupts.root) :
    t'.interrupts.root.number ≠ t.interrupts.root.number := by
  intro hn
  refine hroot ?_
  rw [show t'.interrupts.root = ⟨t'.interrupts.root.number, t'.interrupts.root.above⟩ from rfl, hn,
    h'.root, ← h.root]

theorem Clear.step (h : t.Clear) (hs : Step t t') : t'.Clear := by
  cases hs with
  | replace =>
    exact
      { root := rfl
        live := fun hn => Nat.lt_irrefl _ (h.cancelledIssued _ hn)
        rootIssued := Nat.lt_succ_self _
        older := fun u hu => by
          rcases List.mem_append.1 hu with hu | hu
          · exact (h.older u hu).trans h.rootIssued
          · exact List.mem_singleton.1 hu ▸ h.rootIssued
        cancelledIssued := fun n hn => Nat.lt_succ_of_lt (h.cancelledIssued n hn)
        handedIssued := fun u hu => Nat.lt_succ_of_lt (h.handedIssued u hu)
        apart := fun u hu hn => by
          rcases List.mem_cons.1 hn with hn | hn
          · exact Nat.lt_irrefl _ (hn ▸ h.handedIssued u hu)
          · rw [List.map_append, List.mem_append] at hn
            refine h.apart u hu ?_
            rcases hn with hn | hn
            · exact List.mem_cons_of_mem _ hn
            · exact List.mem_singleton.1 hn ▸ List.mem_cons_self
        unique := h.unique }
  | strike n u hu =>
    have hmem := List.mem_of_getElem? hu
    have hsub {v : Token} (hv : v ∈ t.retired.eraseIdx n) : v ∈ t.retired :=
      List.mem_of_mem_eraseIdx hv
    exact
      { root := h.root
        live := fun hn => by
          rcases List.mem_cons.1 hn with hn | hn
          · exact absurd hn (Nat.ne_of_gt (h.older u hmem))
          · exact h.live hn
        rootIssued := h.rootIssued
        older := fun v hv => h.older v (hsub hv)
        cancelledIssued := fun m hm => by
          rcases List.mem_cons.1 hm with rfl | hm
          · exact (h.older u hmem).trans h.rootIssued
          · exact h.cancelledIssued m hm
        handedIssued := h.handedIssued
        apart := fun v hv hn => by
          refine h.apart v hv ?_
          rcases List.mem_cons.1 hn with hn | hn
          · exact hn ▸ List.mem_cons_self
          · obtain ⟨x, hx, he⟩ := List.mem_map.1 hn
            exact List.mem_cons_of_mem _ (he ▸ List.mem_map_of_mem (hsub hx))
        unique := h.unique }
  | issue =>
    exact
      { root := h.root
        live := h.live
        rootIssued := Nat.lt_succ_of_lt h.rootIssued
        older := h.older
        cancelledIssued := fun n hn => Nat.lt_succ_of_lt (h.cancelledIssued n hn)
        handedIssued := fun u hu => Nat.lt_succ_of_lt (h.handedIssued u hu)
        apart := h.apart
        unique := h.unique }
  | hand u hu =>
    exact
      { root := h.root
        live := h.live
        rootIssued := Nat.lt_succ_of_lt h.rootIssued
        older := h.older
        cancelledIssued := fun n hn => Nat.lt_succ_of_lt (h.cancelledIssued n hn)
        handedIssued := fun v hv => by
          rcases List.mem_append.1 hv with hv | hv
          · exact Nat.lt_succ_of_lt (h.handedIssued v hv)
          · obtain rfl := List.mem_singleton.1 hv
            exact Nat.lt_succ_of_le (Nat.le_of_eq hu)
        apart := fun v hv hn => by
          rcases List.mem_append.1 hv with hv | hv
          · exact h.apart v hv hn
          · obtain rfl := List.mem_singleton.1 hv
            exact Nat.lt_irrefl _ (hu ▸ h.roots_lt hn)
        unique := by
          rw [List.map_append, List.nodup_append]
          refine ⟨h.unique, List.nodup_singleton _, ?_⟩
          rintro n hn m hm rfl
          obtain ⟨v, hv, rfl⟩ := List.mem_map.1 hn
          exact Nat.lt_irrefl _ (hu ▸ List.mem_singleton.1 hm ▸ h.handedIssued v hv) }

theorem Clear.cancel (h : t.Clear) (hu : u ∈ t.handed) : (t.cancel u).Clear where
  root := h.root
  live hn := by
    rcases List.mem_cons.1 hn with hn | hn
    · exact h.apart u hu (hn ▸ List.mem_cons_self)
    · exact h.live hn
  rootIssued := h.rootIssued
  older := h.older
  cancelledIssued n hn := by
    rcases List.mem_cons.1 hn with rfl | hn
    · exact h.handedIssued u hu
    · exact h.cancelledIssued n hn
  handedIssued := h.handedIssued
  apart := h.apart
  unique := h.unique

theorem Clear.reach (h : t.Clear) (hr : Reach t t') : t'.Clear := by
  induction hr with
  | refl => exact h
  | tail _ hs ih => exact ih.step hs

/-! ### From one time to another -/

/-- What is kept of the tokens, and what can be new. Besides those of roots that are gone only the
numbers of `cancelled` are cancelled meanwhile. -/
structure Onward (cancelled : List Token) (t t' : Tokens) : Prop where
  issued : t.interrupts.issued ≤ t'.interrupts.issued
  root : t.interrupts.root.number ≤ t'.interrupts.root.number
  kept : ∀ n ∈ t.interrupts.cancelled, n ∈ t'.interrupts.cancelled
  handed : t.handed <+: t'.handed
  /-- A root does not go but to be cancelled. -/
  gone : ∀ n ∈ t.roots, n ∈ t'.roots ∨ n ∈ t'.interrupts.cancelled
  newRoots : ∀ n ∈ t'.roots, n ∈ t.roots ∨ t.interrupts.issued ≤ n
  newHanded : ∀ u ∈ t'.handed, u ∈ t.handed ∨ t.interrupts.issued ≤ u.number
  newCancelled : ∀ n ∈ t'.interrupts.cancelled, n ∈ t.interrupts.cancelled ∨ n ∈ t.roots ∨
    t.interrupts.issued ≤ n ∧ n < t'.interrupts.root.number ∨ n ∈ cancelled.map Token.number

variable {cancelled cancelled' : List Token}

theorem Onward.refl (t : Tokens) : Onward [] t t where
  issued := Nat.le_refl _
  root := Nat.le_refl _
  kept _ := id
  handed := List.prefix_rfl
  gone _ := .inl
  newRoots _ := .inl
  newHanded _ := .inl
  newCancelled _ := .inl

theorem Onward.trans (h : Onward cancelled t t') (h' : Onward cancelled' t' t'') (ht' : t'.Clear)
    (ht'' : t''.Clear) : Onward (cancelled ++ cancelled') t t'' where
  issued := h.issued.trans h'.issued
  root := h.root.trans h'.root
  kept n hn := h'.kept n (h.kept n hn)
  handed := h.handed.trans h'.handed
  gone n hn := (h.gone n hn).elim (h'.gone n) fun hn => .inr (h'.kept n hn)
  newRoots n hn := (h'.newRoots n hn).elim (h.newRoots n) fun hn => .inr (h.issued.trans hn)
  newHanded u hu := (h'.newHanded u hu).elim (h.newHanded u) fun hn => .inr (h.issued.trans hn)
  newCancelled n hn := by
    rw [List.map_append, List.mem_append]
    rcases h'.newCancelled n hn with hc | hr | ⟨hi, hlt⟩ | hc
    · rcases h.newCancelled n hc with hc | hr | ⟨hi, hlt⟩ | hc
      · exact .inl hc
      · exact .inr (.inl hr)
      · exact .inr (.inr (.inl ⟨hi, Nat.lt_of_lt_of_le hlt h'.root⟩))
      · exact .inr (.inr (.inr (.inl hc)))
    · rcases h.newRoots n hr with hr' | hi
      · exact .inr (.inl hr')
      · -- a root that came and went meanwhile
        have hne : n ≠ t''.interrupts.root.number := fun he => ht''.live (he ▸ hn)
        exact .inr (.inr (.inl ⟨hi,
          Nat.lt_of_le_of_ne ((ht'.le_root hr).trans h'.root) hne⟩))
    · exact .inr (.inr (.inl ⟨h.issued.trans hi, hlt⟩))
    · exact .inr (.inr (.inr (.inr hc)))

theorem Clear.onward_step (h : t.Clear) (hs : Step t t') : Onward [] t t' := by
  cases hs with
  | replace =>
    exact
      { issued := Nat.le_succ _
        root := Nat.le_of_lt h.rootIssued
        kept := fun _ => id
        handed := List.prefix_rfl
        gone := fun n hn => by
          refine .inl (List.mem_cons_of_mem _ ?_)
          rw [List.map_append, List.mem_append]
          exact (List.mem_cons.1 hn).symm.imp id fun hn => List.mem_singleton.2 hn
        newRoots := fun n hn => by
          rcases List.mem_cons.1 hn with rfl | hn
          · exact .inr (Nat.le_refl _)
          · rw [List.map_append, List.mem_append] at hn
            rcases hn with hn | hn
            · exact .inl (List.mem_cons_of_mem _ hn)
            · exact .inl (List.mem_singleton.1 hn ▸ List.mem_cons_self)
        newHanded := fun _ => .inl
        newCancelled := fun _ => .inl }
  | strike n u hu =>
    have hmem := List.mem_of_getElem? hu
    exact
      { issued := Nat.le_refl _
        root := Nat.le_refl _
        kept := fun _ => List.mem_cons_of_mem _
        handed := List.prefix_rfl
        gone := fun m hm => by
          rcases List.mem_cons.1 hm with rfl | hm
          · exact .inl List.mem_cons_self
          · obtain ⟨v, hv, rfl⟩ := List.mem_map.1 hm
            by_cases he : v ∈ t.retired.eraseIdx n
            · exact .inl (List.mem_cons_of_mem _ (List.mem_map_of_mem he))
            · -- only the root that is struck leaves the list
              obtain ⟨i, hi⟩ := List.mem_iff_getElem?.1 hv
              have hin : i = n := by
                by_contra hne
                exact he (List.mem_eraseIdx_iff_getElem?.2 ⟨i, hne, hi⟩)
              rw [hin, hu] at hi
              exact .inr (Option.some.inj hi ▸ List.mem_cons_self)
        newRoots := fun m hm => by
          rcases List.mem_cons.1 hm with rfl | hm
          · exact .inl List.mem_cons_self
          · obtain ⟨v, hv, rfl⟩ := List.mem_map.1 hm
            exact .inl (List.mem_cons_of_mem _ (List.mem_map_of_mem (List.mem_of_mem_eraseIdx hv)))
        newHanded := fun _ => .inl
        newCancelled := fun m hm => by
          rcases List.mem_cons.1 hm with rfl | hm
          · exact .inr (.inl (List.mem_cons_of_mem _ (List.mem_map_of_mem hmem)))
          · exact .inl hm }
  | issue =>
    exact
      { issued := Nat.le_succ _
        root := Nat.le_refl _
        kept := fun _ => id
        handed := List.prefix_rfl
        gone := fun _ => .inl
        newRoots := fun _ => .inl
        newHanded := fun _ => .inl
        newCancelled := fun _ => .inl }
  | hand u hu =>
    exact
      { issued := Nat.le_succ _
        root := Nat.le_refl _
        kept := fun _ => id
        handed := List.prefix_append _ _
        gone := fun _ => .inl
        newRoots := fun _ => .inl
        newHanded := fun v hv => by
          rcases List.mem_append.1 hv with hv | hv
          · exact .inl hv
          · exact .inr (List.mem_singleton.1 hv ▸ hu ▸ Nat.le_refl _)
        newCancelled := fun _ => .inl }

theorem Clear.onward (h : t.Clear) (hr : Reach t t') : Onward [] t t' := by
  induction hr with
  | refl => exact .refl t
  | tail hr hs ih =>
    have hclear := h.reach hr
    exact ih.trans (hclear.onward_step hs) hclear (hclear.step hs)

theorem Onward.cancel (t : Tokens) (u : Token) : Onward [u] t (t.cancel u) where
  issued := Nat.le_refl _
  root := Nat.le_refl _
  kept _ := List.mem_cons_of_mem _
  handed := List.prefix_rfl
  gone _ := .inl
  newRoots _ := .inl
  newHanded _ := .inl
  newCancelled n hn := by
    rcases List.mem_cons.1 hn with rfl | hn
    · exact .inr (.inr (.inr (List.mem_singleton.2 rfl)))
    · exact .inl hn

theorem Onward.isCancelled (ho : Onward cancelled t t')
    (h : t.interrupts.isCancelled u = true) : t'.interrupts.isCancelled u = true := by
  obtain ⟨n, hn, hc⟩ := Interrupts.isCancelled_iff.1 h
  exact Interrupts.isCancelled_iff.2 ⟨n, hn, ho.kept n hc⟩

/-! ### Tokens below a root -/

/-- A token below one root, which is in place, retired or cancelled. -/
def Below (t : Tokens) (u : Token) : Prop :=
  ∃ n, u.above = [n] ∧ (n ∈ t.roots ∨ n ∈ t.interrupts.cancelled)

theorem Below.onward (h : t.Below u) (ho : Onward cancelled t t') : t'.Below u := by
  obtain ⟨n, hn, hr | hc⟩ := h
  · exact ⟨n, hn, ho.gone n hr⟩
  · exact ⟨n, hn, .inr (ho.kept n hc)⟩

/-- Once another root is in place and the one above it is not retired, a token is cancelled. -/
theorem Below.isCancelled (h : t.Below u) (ht : t.Clear) (ho : Onward cancelled t t')
    (hroot : t'.interrupts.root.number ≠ t.interrupts.root.number)
    (hretired : ∀ v ∈ t'.retired, v.number ∉ u.above) : t'.interrupts.isCancelled u = true := by
  obtain ⟨n, hn, hr⟩ := h
  have hc : n ∈ t'.interrupts.cancelled := by
    rcases hr with hr | hc
    · rcases ho.gone n hr with hr' | hc
      · rcases List.mem_cons.1 hr' with rfl | hr'
        · exact absurd (Nat.le_antisymm (ht.le_root hr) ho.root) hroot
        · obtain ⟨v, hv, rfl⟩ := List.mem_map.1 hr'
          exact absurd (hn ▸ List.mem_singleton.2 rfl) (hretired v hv)
      · exact hc
    · exact ho.kept n hc
  rw [Interrupts.isCancelled_iff]
  exact ⟨n, by rw [Token.line, hn]; exact List.mem_cons_of_mem _ (List.mem_singleton.2 rfl), hc⟩

/-- A token that nobody has but a wait. -/
structure Private (t : Tokens) (u : Token) : Prop where
  issued : u.number < t.interrupts.issued
  live : u.number ∉ t.interrupts.cancelled
  apart : u.number ∉ t.roots
  unhanded : u.number ∉ t.handed.map Token.number
  below : t.Below u

/-- Whatever tokens of readers are cancelled, one of a wait is not. -/
theorem Private.onward (h : t.Private u) (ho : Onward cancelled t t')
    (hc : ∀ v ∈ cancelled, v ∈ t.handed) : t'.Private u where
  issued := Nat.lt_of_lt_of_le h.issued ho.issued
  live hn := by
    rcases ho.newCancelled _ hn with hn | hn | ⟨hn, -⟩ | hn
    · exact h.live hn
    · exact h.apart hn
    · exact Nat.not_le_of_lt h.issued hn
    · obtain ⟨v, hv, he⟩ := List.mem_map.1 hn
      exact h.unhanded (he ▸ List.mem_map_of_mem (hc v hv))
  apart hn := by
    rcases ho.newRoots _ hn with hn | hn
    · exact h.apart hn
    · exact Nat.not_le_of_lt h.issued hn
  unhanded hn := by
    obtain ⟨v, hv, he⟩ := List.mem_map.1 hn
    rcases ho.newHanded v hv with hv | hv
    · exact h.unhanded (he ▸ List.mem_map_of_mem hv)
    · exact Nat.not_le_of_lt h.issued (he ▸ hv)
  below := h.below.onward ho

/-- A token that was just issued below the root is private. -/
theorem Clear.private_below (h : t.Clear) :
    Private { t with interrupts := t.interrupts.operation.2 } t.interrupts.operation.1 where
  issued := Nat.lt_succ_self _
  live hn := Nat.lt_irrefl _ (h.cancelledIssued _ hn)
  apart hn := Nat.lt_irrefl _ (h.roots_lt hn)
  unhanded hn := by
    obtain ⟨v, hv, he⟩ := List.mem_map.1 hn
    exact Nat.lt_irrefl _ (he ▸ h.handedIssued v hv)
  below := ⟨_, by rw [Interrupts.operation, Interrupts.below, Token.line, h.root],
    .inl List.mem_cons_self⟩

/-! ### Tokens of a time -/

/-- A token that was issued from one time to another, below no root but those in place
meanwhile. -/
structure Since (t t' : Tokens) (u : Token) : Prop where
  issued : t.interrupts.issued ≤ u.number
  above : ∀ n ∈ u.above, t.interrupts.root.number ≤ n ∧ n ≤ t'.interrupts.root.number

theorem Since.onward (h : t.Since t' u) (ho : Onward cancelled' t' t'') : t.Since t'' u where
  issued := h.issued
  above n hn := ⟨(h.above n hn).1, (h.above n hn).2.trans ho.root⟩

/-- A token that was just issued below the root. -/
theorem Onward.since_operation (ho : Onward cancelled t t') (ht' : t'.Clear) (t'' : Tokens)
    (hroot : t'.interrupts.root.number ≤ t''.interrupts.root.number) :
    t.Since t'' t'.interrupts.operation.1 where
  issued := ho.issued
  above n hn := by
    rw [Interrupts.operation, Interrupts.below, Token.line, ht'.root] at hn
    rw [List.mem_singleton.1 hn]
    exact ⟨ho.root, hroot⟩

/-- As long as the root stays, what was issued meanwhile is cancelled by itself or not at all. -/
theorem Since.isCancelled_eq_false (h : t.Since t' u) (ht : t.Clear) (ht' : t'.Clear)
    (ho : Onward cancelled t t') (hroot : t'.interrupts.root.number = t.interrupts.root.number)
    (hu : u.number ∉ cancelled.map Token.number) : t'.interrupts.isCancelled u = false := by
  rw [Bool.eq_false_iff, Ne, Interrupts.isCancelled_iff]
  rintro ⟨n, hn, hc⟩
  rcases List.mem_cons.1 hn with rfl | hn
  · rcases ho.newCancelled _ hc with hc | hr | ⟨-, hlt⟩ | hc
    · exact Nat.not_le_of_lt (ht.cancelledIssued _ hc) h.issued
    · exact Nat.not_le_of_lt (ht.roots_lt hr) h.issued
    · exact Nat.not_le_of_lt ((hroot ▸ hlt).trans ht.rootIssued) h.issued
    · exact hu hc
  · -- the only root it can stand below is in place
    obtain ⟨hle, hge⟩ := h.above n hn
    exact ht'.live (Nat.le_antisymm hge (hroot ▸ hle) ▸ hc)

end Tokens

end QueryResults.Session
