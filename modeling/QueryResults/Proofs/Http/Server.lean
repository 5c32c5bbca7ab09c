import QueryResults.Http.ObjectStore
import QueryResults.Proofs.Store.Object

/-!
# Servers of an object

A server that has an object answers a plain request for it with status 200 and the whole object. To
a request that carries a range it may answer in two ways, both of which conform: with status 206 and
the rest of the object from the first byte of the range on, or, taking no notice of the range, as to
a plain request. The tag is always that of the object, the declared length that of the body, and the
body may break off anywhere. Nothing is said of faults and of statuses that refuse the request; they
may come at any time.

## Main definitions

* `Http.Carries`, `Http.Response.Holds`: bodies and responses with the bytes from an offset on.
* `Http.Transport.KeepsRequests`: building and signing leave alone what is asked for.
* `Http.Transport.Conforms`, `Http.Transport.HonoursRanges`.
* `Http.server`: a server that honours ranges or ignores them.

## Main results

* `Http.conforms_server`, `Http.honoursRanges_server`.
-/

namespace QueryResults.Http

open Store (Object)

variable {σ : Type}

/-! ### Bodies and responses -/

/-- A body whose parts, of any sizes, hold the first of the bytes `rest`, and which then ends or
breaks off. -/
inductive Carries : List UInt8 → List Part → Prop
  | done (rest : List UInt8) : Carries rest []
  | broken (rest : List UInt8) (f : Fault) : Carries rest [.broken f]
  | bytes {rest : List UInt8} {body : List Part} (b : List UInt8) (h : Carries rest body) :
      Carries (b ++ rest) (.bytes b :: body)

/-- A store hands on the bytes of a body as they are. -/
theorem Carries.delivers {rest : List UInt8} {body : List Part} (h : Carries rest body)
    (l : Location) : Store.Delivers rest (body.map (itemOfPart l)) := by
  induction h with
  | done rest => exact .done rest
  | broken rest f => exact .failure rest _
  | bytes b _ ih => exact .chunk b ih

/-- A response with the tag of an object, and with its bytes from an offset on. -/
structure Response.Holds (r : Response) (o : Object) (offset : Nat) : Prop where
  etag : (r.headers.lookup "etag").bind headerText = some o.etag
  length : r.length = some (.ofNat (o.bytes.length - offset))
  body : Carries (o.bytes.drop offset) r.body

/-- What a store makes of such a response tells the truth about the object. -/
theorem Response.Holds.isFaithful {r : Response} {o : Object} {offset : Nat}
    (h : r.Holds o offset) (l : Location) :
    (Store.Answer.response (storeResponse l r)).IsFaithful o offset :=
  ⟨h.etag, h.length, h.body.delivers l⟩

/-! ### Transports -/

/-- The value of the header that asks for the bytes from `n` on. -/
def rangeText (n : UInt64) : String := s!"bytes={n}-"

/-- Different ranges are written differently. -/
theorem rangeText_inj {m n : UInt64} : rangeText m = rangeText n ↔ m = n := by
  constructor
  · intro h
    have hrepr : m.toNat.repr = n.toNat.repr :=
      (String.append_right_inj _).1 ((String.append_left_inj _).1 h)
    exact UInt64.toNat_inj.1 (Nat.repr_inj.1 hrepr)
  · exact congrArg rangeText

/-- Whether a request asks for the bytes from `start` on, or for all if there is none. -/
def Request.Wants (r : Request) (start : Option UInt64) : Prop :=
  r.headers.lookup "range" = start.map rangeText

/-- Building and signing leave alone what is asked for, and how. Where it is asked for is told by
`address` from the text of the URL. -/
structure Transport.KeepsRequests (t : Transport σ) (address : String → String) : Prop where
  build : ∀ draft r, t.build draft = .ok r →
    r.method = draft.method ∧ r.url = address draft.url ∧
      r.headers.lookup "range" = draft.headers.lookup "range"
  sign : ∀ r s signed, (t.sign r s).1 = .ok signed →
    signed.method = r.method ∧ signed.url = r.url ∧
      signed.headers.lookup "range" = r.headers.lookup "range"

/-- A response to a request for the bytes from `start` on. Ranges may be ignored. -/
def Response.Suits (o : Object) (start : Option UInt64) (r : Response) : Prop :=
  (r.status = 200 ∧ r.Holds o 0) ∨ ∃ n, start = some n ∧ r.status = 206 ∧ r.Holds o n.toNat

/-- Requests for an object at a URL that are served at all are served as they should be. -/
def Transport.Conforms (t : Transport σ) (url : String) (o : Object) : Prop :=
  ∀ r s start response, r.method = .get → r.url = url → r.Wants start →
    (start.map UInt64.toNat).getD 0 ≤ o.bytes.length → (t.send r s).1 = .response response →
    isSuccess response.status → response.Suits o start

/-- Requests for the rest of an object at a URL that are served at all are served with the rest. -/
def Transport.HonoursRanges (t : Transport σ) (url : String) (o : Object) : Prop :=
  ∀ r s n response, r.method = .get → r.url = url → r.Wants (some n) → n.toNat ≤ o.bytes.length →
    (t.send r s).1 = .response response → isSuccess response.status → response.status = 206

/-! ### A server -/

/-- The bytes `rest` in one part, or as many of them as come before the body breaks off. -/
def cutBody (rest : List UInt8) : Option Nat → List Part
  | some n => [.bytes (rest.take n), .broken { text := "connection reset" }]
  | none => [.bytes rest]

theorem carries_cutBody (rest : List UInt8) (cut : Option Nat) :
    Carries rest (cutBody rest cut) := by
  cases cut with
  | some n =>
    have := Carries.bytes (rest.take n) (.broken (rest.drop n) { text := "connection reset" })
    rwa [List.take_append_drop] at this
  | none =>
    have := Carries.bytes rest (.done [])
    rwa [List.append_nil] at this

/-- The first byte of the range that a request carries, if it lies within the object. -/
def rangeStart? (o : Object) (r : Request) : Option Nat :=
  (List.range (o.bytes.length + 1)).find? fun n =>
    r.headers.lookup "range" = some (rangeText (.ofNat n))

theorem rangeStart?_of_wants {o : Object} {r : Request} {n : UInt64} (h : r.Wants (some n))
    (hn : n.toNat ≤ o.bytes.length) : rangeStart? o r = some n.toNat := by
  have found : n.toNat ∈ List.range (o.bytes.length + 1) :=
    List.mem_range.2 (Nat.lt_succ_of_le hn)
  unfold rangeStart?
  rw [show r.headers.lookup "range" = some (rangeText n) from h]
  cases hf : (List.range (o.bytes.length + 1)).find? _ with
  | none =>
    have := List.find?_eq_none.1 hf n.toNat found
    simp at this
  | some m =>
    have hm := List.find?_some hf
    have hlt : m < UInt64.size := Nat.lt_of_lt_of_le
      (List.mem_range.1 (List.mem_of_find?_eq_some hf)) o.size_lt
    simp only [Option.some.injEq, decide_eq_true_eq, rangeText_inj] at hm
    rw [hm, UInt64.toNat_ofNat_of_lt' hlt]

theorem rangeStart?_of_wants_none {o : Object} {r : Request} (h : r.Wants none) :
    rangeStart? o r = none := by
  unfold rangeStart?
  rw [show r.headers.lookup "range" = none from h]
  simp

/-- The response with the bytes of an object from `start` on, under the tag as it stands in the
header. -/
def rangeResponse (o : Object) (tag : List UInt8) (start : Option Nat) (cut : Option Nat) :
    Response where
  status := if start.isSome then 206 else 200
  headers := [("etag", tag)]
  length := some (.ofNat (o.bytes.length - start.getD 0))
  body := cutBody (o.bytes.drop (start.getD 0)) cut

/-- A server of one object, at every URL. It honours ranges or ignores them; its bodies break off
after the given numbers of bytes, one number a body, and those that follow are whole. -/
def server (o : Object) (tag : List UInt8) (honours : Bool) : Transport (List Nat) where
  build := .ok
  sign r cuts := (.ok r, cuts)
  send r cuts :=
    (.response (rangeResponse o tag (if honours then rangeStart? o r else none) cuts.head?),
      cuts.tail)
  pause _ cuts := cuts

variable {o : Object} {tag : List UInt8}

theorem holds_rangeResponse (htag : headerText tag = some o.etag) (start cut : Option Nat) :
    (rangeResponse o tag start cut).Holds o (start.getD 0) :=
  ⟨htag, rfl, carries_cutBody _ _⟩

theorem keepsRequests_server (honours : Bool) : (server o tag honours).KeepsRequests id where
  build := by
    rintro draft r ⟨⟩
    exact ⟨rfl, rfl, rfl⟩
  sign := by
    rintro r s signed ⟨⟩
    exact ⟨rfl, rfl, rfl⟩

theorem conforms_server (htag : headerText tag = some o.etag) (honours : Bool) (url : String) :
    (server o tag honours).Conforms url o := by
  rintro r s start response - - hwants hle ⟨⟩ -
  cases honours with
  | false => exact .inl ⟨rfl, holds_rangeResponse htag none _⟩
  | true =>
    cases start with
    | none =>
      rw [if_pos rfl, rangeStart?_of_wants_none hwants]
      exact .inl ⟨rfl, holds_rangeResponse htag none _⟩
    | some n =>
      rw [if_pos rfl, rangeStart?_of_wants hwants hle]
      exact .inr ⟨n, rfl, rfl, holds_rangeResponse htag (some n.toNat) _⟩

theorem honoursRanges_server (url : String) : (server o tag true).HonoursRanges url o := by
  rintro r s n response - - hwants hle ⟨⟩ -
  rw [if_pos rfl, rangeStart?_of_wants hwants hle]
  rfl

end QueryResults.Http
