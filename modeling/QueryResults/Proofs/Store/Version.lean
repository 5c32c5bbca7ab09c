import QueryResults.Proofs.Store.Object

/-!
# One version of an object

The exchanges of a download with a store that may replace the object at any time tell by themselves
whether the download has stayed with one version of it. A response is *accepted* unless it carries
another tag than its request asks for. Once a tag is known from an accepted response, every later
request asks for it (`KeepsTag`).

An exchange *falls short* when the request is refused, when another tag comes back, when the body
breaks off, or when it ends too early. A download makes another request only behind exchanges that
fell short in another way than by a change of the object (`Noted`), and when it gives up, it does so
with what the last exchange fell short by and with all earlier failures in order (`GivesUp`).
Whoever leaves each exchange to a task of its own is also *let down* by one whose task has broken
down, of which no more is heard than that it has stopped.

## Main definitions

* `Exchange.accepted`, `Exchange.tag`, `Exchange.finish`: what an exchange tells about the object.
* `tagAfter`, `endAfter`: what some exchanges tell.
* `Exchange.FindsChange`, `Exchange.ReportsChange`, `Exchange.ShowsChange`.
* `Exchange.FallsShort`, `Exchange.LetsDown`.
* `Versioned`, `KeepsTag`, `TellsApart`, `Noted`, `GivesUp`: what the exchanges of a download have
  to do with each other.

## Main results

* `Versioned.keepsTag`: requests made under the known tag keep it.
* `Exchange.FallsShort.kind_of_reportsChange`: what becomes of an exchange that reports a change.
-/

namespace QueryResults.Store

variable {log log' earlier : List Exchange} {x : Exchange} {e : Failure} {known : Option String}
  {falls : Exchange → Failure → Prop}

/-! ### What an exchange tells -/

namespace Exchange

/-- The offset asked for. -/
def offset (x : Exchange) : UInt64 := x.request.start.getD 0

theorem toNat_offset (x : Exchange) : x.offset.toNat = x.request.offset := by
  unfold offset Request.offset
  cases x.request.start <;> rfl

/-- The response, unless it carries another tag than the request asks for. -/
def accepted (x : Exchange) : Option Response :=
  match x.answer with
  | .response r =>
    match x.request.ifMatch, r.etag with
    | some expected, some actual => if expected = actual then some r else none
    | _, _ => some r
  | _ => none

/-- The tag of the object, if an accepted response has carried it. -/
def tag (x : Exchange) : Option String := x.accepted.bind Response.etag

/-- The offset at which the object ends, if an accepted response has declared a length. -/
def finish (x : Exchange) : Option Nat :=
  x.accepted.bind fun r => r.length.map fun n => x.request.offset + n.toNat

/-- The body of an accepted response breaks off with a failure behind some chunks. -/
def BreaksOff (x : Exchange) (taken : List (List UInt8)) (e : Failure) : Prop :=
  ∃ r rest, x.accepted = some r ∧ r.body = taken.map .chunk ++ .failure e :: rest

/-- The answer to a request shows that the object has changed: the store says so, or another tag
comes back. -/
inductive FindsChange (x : Exchange) : Prop
  | told {e : Failure} (ha : x.answer = .failure e) (hk : e.kind = .preconditionFailed)
  | seen {r : Response} {expected actual : String} (ha : x.answer = .response r)
      (hq : x.request.ifMatch = some expected) (hr : r.etag = some actual)
      (hne : expected ≠ actual)

/-- The store or the tag it answers with shows that the object has changed, at once or in the middle
of the body. -/
inductive ReportsChange (x : Exchange) : Prop
  | atOnce (h : x.FindsChange)
  | within {taken : List (List UInt8)} {e : Failure} (hb : x.BreaksOff taken e)
      (hk : e.kind = .preconditionFailed)

/-- The change that the store or the tag shows is seen. In an exchange that overruns, the task
breaks down, whatever its body holds further on. -/
def ShowsChange (x : Exchange) : Prop := x.ReportsChange ∧ (x.Overruns → x.FindsChange)

/-- A failure with the place where it happened. -/
def located (x : Exchange) (offset : UInt64) (e : Failure) : Failure :=
  let location := x.request.location
  let reason := e.message
  e.inContext s!"GET {location} at offset {offset}: {reason}"

/-- What an exchange may fall short by, as the failure it counts as. -/
inductive FallsShort (x : Exchange) : Failure → Prop
  | refused {e : Failure} (ha : x.answer = .failure e) : FallsShort x (x.located x.offset e)
  | changed {r : Response} {expected actual : String} (ha : x.answer = .response r)
      (hq : x.request.ifMatch = some expected) (hr : r.etag = some actual)
      (hne : expected ≠ actual) :
      FallsShort x
        (x.located x.offset (.preconditionFailed s!"ETag changed from {expected} to {actual}"))
  | brokenOff {taken : List (List UInt8)} {e : Failure} (hb : x.BreaksOff taken e) :
      FallsShort x (x.located (x.offset + .ofNat taken.flatten.length) e)
  | cutShort {r : Response} {taken : List (List UInt8)} {location : Location}
      {reached finish : UInt64} (ha : x.accepted = some r) (hb : r.body = taken.map .chunk)
      (hl : location = x.request.location)
      (hd : reached = x.offset + .ofNat taken.flatten.length) (hlt : reached < finish) :
      FallsShort x (.io s!"Body of {location} ended at offset {reached} of {finish}")

/-- What an exchange may let its reader down by, as the failure it counts as: what it fell short by,
or that nothing more was heard of a task that has broken down. -/
inductive LetsDown (x : Exchange) : Failure → Prop
  | fellShort {e : Failure} (h : x.FallsShort e) : LetsDown x e
  | stopped {r : Response} {location : Location} (ha : x.accepted = some r) (ho : x.Overruns)
      (hl : location = x.request.location) :
      LetsDown x (.io s!"Download of {location} stopped without a terminal signal")

/-! ### Accepted responses -/

theorem answer_of_accepted {r : Response} (h : x.accepted = some r) : x.answer = .response r := by
  unfold accepted at h
  split at h
  · rename_i r' ha
    rw [ha]
    split at h
    · split at h
      · cases h
        rfl
      · cases h
    · cases h
      rfl
  · cases h

/-- An accepted response carries no other tag than the one asked for. -/
theorem eq_of_tag {expected actual : String} (hq : x.request.ifMatch = some expected)
    (ht : x.tag = some actual) : expected = actual := by
  obtain ⟨r, ha, hr⟩ := Option.bind_eq_some_iff.1 ht
  have hanswer := answer_of_accepted ha
  by_contra hne
  simp [accepted, hanswer, hq, hr, hne] at ha

theorem accepted_of_failure (ha : x.answer = .failure e) : x.accepted = none := by
  simp only [accepted, ha]

theorem accepted_of_ne {r : Response} {expected actual : String} (ha : x.answer = .response r)
    (hq : x.request.ifMatch = some expected) (hr : r.etag = some actual)
    (hne : expected ≠ actual) : x.accepted = none := by
  simp only [accepted, ha, hq, hr, if_neg hne]

/-- No response is accepted in an exchange that shows a change at once. -/
theorem FindsChange.accepted (h : x.FindsChange) : x.accepted = none := by
  cases h with
  | told ha hk => exact accepted_of_failure ha
  | seen ha hq hr hne => exact accepted_of_ne ha hq hr hne

/-- A change that an answer shows is seen at once. -/
theorem FindsChange.shows (h : x.FindsChange) : x.ShowsChange := ⟨.atOnce h, fun _ => h⟩

/-- A change is found in an answer that comes. -/
theorem FindsChange.answer_ne_silence (h : x.FindsChange) : x.answer ≠ .silence := by
  cases h with
  | told ha | seen ha => simp [ha]

theorem tag_of_accepted (h : x.accepted = none) : x.tag = none := by rw [tag, h]; rfl

theorem finish_of_accepted (h : x.accepted = none) : x.finish = none := by rw [finish, h]; rfl

/-! ### Falling short -/

/-- The first failure of a body is behind all its chunks and nothing else. -/
theorem failure_unique {taken taken' : List (List UInt8)} {e e' : Failure}
    {rest rest' : List Item}
    (h : taken.map .chunk ++ .failure e :: rest = taken'.map .chunk ++ .failure e' :: rest') :
    e = e' := by
  induction taken generalizing taken' with
  | nil =>
    cases taken' with
    | nil =>
      cases h
      rfl
    | cons => cases h
  | cons b taken ih =>
    cases taken' with
    | nil => cases h
    | cons => exact ih (List.cons.inj h).2

theorem failure_notMem_chunks {taken : List (List UInt8)} :
    Item.failure e ∉ taken.map Item.chunk := by
  simp

theorem kind_located (x : Exchange) (offset : UInt64) (e : Failure) :
    (x.located offset e).kind = e.kind := rfl

theorem FallsShort.suppressed (h : x.FallsShort e) : e.suppressed = [] := by
  cases h <;> rfl

/-- What an exchange that reports a change falls short by is that change. -/
theorem FallsShort.kind_of_reportsChange (h : x.FallsShort e) (hx : x.ReportsChange) :
    e.kind = .preconditionFailed := by
  rcases hx with hx | ⟨⟨r, rest, hr, hbody⟩, hk⟩
  · have hno := hx.accepted
    cases h with
    | refused ha =>
      cases hx with
      | told ha' hk =>
        cases ha.symm.trans ha'
        exact hk
      | seen ha' => cases ha.symm.trans ha'
    | changed => rfl
    | brokenOff hb =>
      obtain ⟨r, rest, hr, -⟩ := hb
      cases hno.symm.trans hr
    | cutShort hr => cases hno.symm.trans hr
  · cases h with
    | refused ha => cases (accepted_of_failure ha).symm.trans hr
    | changed => rfl
    | brokenOff hb =>
      obtain ⟨r', rest', hr', hbody'⟩ := hb
      obtain rfl := Option.some.inj (hr.symm.trans hr')
      rwa [kind_located, ← failure_unique (hbody.symm.trans hbody')]
    | cutShort hr' hbody' =>
      obtain rfl := Option.some.inj (hr.symm.trans hr')
      have hmem : Item.failure _ ∈ r.body := hbody ▸ List.mem_append_right _ List.mem_cons_self
      exact absurd (hbody' ▸ hmem) failure_notMem_chunks

theorem LetsDown.suppressed (h : x.LetsDown e) : e.suppressed = [] := by
  cases h with
  | fellShort h => exact h.suppressed
  | stopped => rfl

/-- What an exchange that shows a change lets its reader down by is that change. -/
theorem LetsDown.kind_of_showsChange (h : x.LetsDown e) (hx : x.ShowsChange) :
    e.kind = .preconditionFailed := by
  cases h with
  | fellShort h => exact h.kind_of_reportsChange hx.1
  | stopped ha ho => cases (hx.2 ho).accepted.symm.trans ha

end Exchange

/-! ### What some exchanges tell -/

/-- The tag of the object known after some exchanges, given what was known before. -/
def tagAfter (known : Option String) (log : List Exchange) : Option String :=
  known <|> log.findSome? Exchange.tag

/-- The offset at which the object ends, as the first exchange tells that declares it. -/
def endAfter (log : List Exchange) : Option Nat := log.findSome? Exchange.finish

@[simp] theorem tagAfter_nil (known : Option String) : tagAfter known [] = known := by
  cases known <;> rfl

theorem tagAfter_append (known : Option String) (log log' : List Exchange) :
    tagAfter known (log ++ log') = tagAfter (tagAfter known log) log' := by
  cases known with
  | some tag => rfl
  | none =>
    simp only [tagAfter, List.findSome?_append]
    cases log.findSome? Exchange.tag <;> rfl

theorem tagAfter_snoc (known : Option String) (log : List Exchange) (x : Exchange) :
    tagAfter known (log ++ [x]) = (tagAfter known log <|> x.tag) := by
  rw [tagAfter_append, tagAfter]
  cases h : x.tag <;> simp [h]

/-- An exchange without an accepted response tells no tag. -/
theorem tagAfter_snoc_of_accepted (known : Option String) (log : List Exchange)
    (h : x.accepted = none) : tagAfter known (log ++ [x]) = tagAfter known log := by
  rw [tagAfter_snoc, Exchange.tag_of_accepted h]
  cases tagAfter known log <;> rfl

theorem endAfter_snoc (log : List Exchange) (x : Exchange) :
    endAfter (log ++ [x]) = (endAfter log <|> x.finish) := by
  simp only [endAfter, List.findSome?_append]
  cases h : x.finish <;> cases log.findSome? Exchange.finish <;> simp [h]

theorem endAfter_snoc_of_accepted (log : List Exchange) (h : x.accepted = none) :
    endAfter (log ++ [x]) = endAfter log := by
  rw [endAfter_snoc, Exchange.finish_of_accepted h]
  cases endAfter log <;> rfl

/-! ### Exchanges of one download -/

/-- The exchanges of a download that has begun under a tag, if one was known: each request is made
under the tag known by then. -/
inductive Versioned (known : Option String) : List Exchange → Prop
  | nil : Versioned known []
  | snoc {log : List Exchange} {x : Exchange} (h : Versioned known log)
      (hx : x.request.ifMatch = tagAfter known log) : Versioned known (log ++ [x])

/-- Once an accepted response has carried a tag, every later request asks for it. -/
def KeepsTag (log : List Exchange) : Prop :=
  log.Pairwise fun x y => ∀ tag, x.tag = some tag → y.request.ifMatch = some tag

namespace Versioned

theorem append (h : Versioned known log) (h' : Versioned (tagAfter known log) log') :
    Versioned known (log ++ log') := by
  induction h' with
  | nil => rwa [List.append_nil]
  | @snoc log' x _ hx ih =>
    rw [← List.append_assoc]
    refine ih.snoc ?_
    rw [hx, tagAfter_append]

/-- All tags that accepted responses have carried are the one known. -/
theorem tagAfter_of_mem (h : Versioned known log) (hx : x ∈ log) {actual : String}
    (ht : x.tag = some actual) : tagAfter known log = some actual := by
  induction h with
  | nil => cases hx
  | @snoc log y h hy ih =>
    rw [tagAfter_snoc]
    rcases List.mem_append.1 hx with hx | hx
    · rw [ih hx]
      rfl
    · obtain rfl := List.mem_singleton.1 hx
      cases hknown : tagAfter known log with
      | none => exact ht
      | some expected =>
        rw [Exchange.eq_of_tag (hy.trans hknown) ht]
        rfl

/-- Requests made under the known tag keep it. -/
theorem keepsTag (h : Versioned known log) : KeepsTag log := by
  induction h with
  | nil => exact .nil
  | @snoc log y h hy ih =>
    refine List.pairwise_append.2 ⟨ih, List.pairwise_singleton _ _, fun x hx z hz actual ht => ?_⟩
    obtain rfl := List.mem_singleton.1 hz
    exact hy.trans (h.tagAfter_of_mem hx ht)

end Versioned

/-- Once an accepted response has carried a tag, every later response with another one shows that
the object has changed. -/
def TellsApart (log : List Exchange) : Prop :=
  log.Pairwise fun x y => ∀ tag r other, x.tag = some tag → y.answer = .response r →
    r.etag = some other → tag ≠ other → y.FindsChange

theorem KeepsTag.tellsApart (h : KeepsTag log) : TellsApart log :=
  h.imp fun hxy tag _ _ hx hy hr hne => .seen hy (hxy tag hx) hr hne

/-- The failures by which all of some exchanges fell short, none of them a change of the object. -/
def Noted (log : List Exchange) (failures : List Failure)
    (falls : Exchange → Failure → Prop := Exchange.FallsShort) : Prop :=
  List.Forall₂ (fun x e => falls x e ∧ e.kind ≠ .preconditionFailed) log failures

namespace Noted

variable {failures failures' : List Failure}

theorem append (h : Noted log failures falls) (h' : Noted log' failures' falls) :
    Noted (log ++ log') (failures ++ failures') falls :=
  List.rel_append h h'

theorem snoc (h : Noted log failures falls) (hx : falls x e) (hk : e.kind ≠ .preconditionFailed) :
    Noted (log ++ [x]) (failures ++ [e]) falls :=
  h.append (.cons ⟨hx, hk⟩ .nil)

theorem eq_nil (h : Noted log [] falls) : log = [] := by
  cases h
  rfl

/-- What would make the failure of an exchange a change holds of none that fell short in another
way. -/
theorem not_of_mem {P : Exchange → Prop} (h : Noted log failures falls)
    (hP : ∀ x e, falls x e → P x → e.kind = .preconditionFailed) (hx : x ∈ log) : ¬P x := by
  induction h with
  | nil => cases hx
  | @cons y e log failures hy h ih =>
    rcases List.mem_cons.1 hx with rfl | hx
    · exact fun hchange => hy.2 (hP _ _ hy.1 hchange)
    · exact ih hx

/-- No exchange that fell short in another way reports a change. -/
theorem not_reportsChange (h : Noted log failures) (hx : x ∈ log) : ¬x.ReportsChange :=
  h.not_of_mem (fun _ _ => Exchange.FallsShort.kind_of_reportsChange) hx

/-- No exchange that let its reader down in another way shows a change. -/
theorem not_showsChange (h : Noted log failures Exchange.LetsDown) (hx : x ∈ log) :
    ¬x.ShowsChange :=
  h.not_of_mem (fun _ _ => Exchange.LetsDown.kind_of_showsChange) hx

end Noted

/-- A download gives up with what its last exchange fell short by; the failures by which all earlier
ones fell short are suppressed, in order. -/
def GivesUp (log : List Exchange) (e : Failure)
    (falls : Exchange → Failure → Prop := Exchange.FallsShort) : Prop :=
  ∃ earlier x e', log = earlier ++ [x] ∧ falls x e' ∧ Noted earlier e.suppressed falls ∧
    e = e'.withSuppressed e.suppressed

namespace GivesUp

theorem intro {failures : List Failure} (h : Noted earlier failures falls) (hx : falls x e)
    (hnone : e.suppressed = []) : GivesUp (earlier ++ [x]) (e.withSuppressed failures) falls := by
  have hsup : (e.withSuppressed failures).suppressed = failures := by simp [hnone]
  exact ⟨earlier, x, e, rfl, hx, hsup.symm ▸ h, by rw [hsup]⟩

/-- An exchange that would make its failure a change is the last one, and what the download gives up
with is that change. -/
theorem of_mem {P : Exchange → Prop} (h : GivesUp log e falls)
    (hP : ∀ x e, falls x e → P x → e.kind = .preconditionFailed) (hx : x ∈ log) (hchange : P x) :
    (∃ earlier, log = earlier ++ [x]) ∧ e.kind = .preconditionFailed := by
  obtain ⟨earlier, y, e', rfl, hy, hnoted, he⟩ := h
  rcases List.mem_append.1 hx with hx | hx
  · exact absurd hchange (hnoted.not_of_mem hP hx)
  · obtain rfl := List.mem_singleton.1 hx
    refine ⟨⟨earlier, rfl⟩, ?_⟩
    rw [he, Failure.kind_withSuppressed]
    exact hP _ _ hy hchange

/-- An exchange that reports a change is the last one, and what the download gives up with is that
change. -/
theorem of_reportsChange (h : GivesUp log e) (hx : x ∈ log) (hr : x.ReportsChange) :
    (∃ earlier, log = earlier ++ [x]) ∧ e.kind = .preconditionFailed :=
  h.of_mem (fun _ _ => Exchange.FallsShort.kind_of_reportsChange) hx hr

/-- So is one that shows a change to its reader. -/
theorem of_showsChange (h : GivesUp log e Exchange.LetsDown) (hx : x ∈ log)
    (hs : x.ShowsChange) :
    (∃ earlier, log = earlier ++ [x]) ∧ e.kind = .preconditionFailed :=
  h.of_mem (fun _ _ => Exchange.LetsDown.kind_of_showsChange) hx hs

end GivesUp

end QueryResults.Store
