import QueryResults.Proofs.Store.Object

/-!
# Stores that follow a script

A script decides turn by turn what becomes of the requests to a store, whatever they ask for: a
failure, or a response with a body that ends cleanly or with a failure. Nothing is left hanging. All
responses declare the same end of the object, so each declares a length that fits the offset it was
asked for, and no body reaches beyond the largest offset. A tape holds the answers as they are,
declared lengths included.

## Main definitions

* `Store.Exchange.Declares`: an exchange that is not left hanging and declares a given end.
* `Store.Turn`, `Store.scripted`.
* `Store.tape`: a store that gives prepared answers.

## Main results

* `Exchange.Declares.isSmooth`, `Store.declares_scripted`.
-/

namespace QueryResults.Store

/-- An exchange that is not left hanging and in which a response, if there is one, declares that the
object ends at `total`, and holds no byte whose offset is too large for a word. -/
structure Exchange.Declares (total : UInt64) (y : Exchange) : Prop where
  prompt : y.answer.IsPrompt
  length : ∀ r, y.answer = .response r →
    ∃ length, r.length = some length ∧ y.request.offset + length.toNat = total.toNat
  within : ∀ r, y.answer = .response r → y.request.offset + r.bytes.length < UInt64.size

/-- An exchange that declares an end breaks no task down. -/
theorem Exchange.Declares.isSmooth {total : UInt64} {y : Exchange} (h : y.Declares total) :
    y.IsSmooth where
  prompt := h.prompt
  fits := by
    rintro ⟨r, hr, ⟨n, hn, hle⟩ | hle⟩
    · obtain ⟨length, hlength, hsum⟩ := h.length r hr
      obtain rfl : length = n := Option.some.inj (hlength.symm.trans hn)
      exact absurd (hsum ▸ hle) (Nat.not_le_of_lt total.toNat_lt)
    · exact absurd hle (Nat.not_le_of_lt (h.within r hr))

/-- A response of a script: the tag, the chunks of the body, and the failure that the body ends
with, if it does. -/
structure Turn where
  etag : Option String
  chunks : List (List UInt8)
  ending : Option Failure

/-- The body of a response of a script. -/
def Turn.body (t : Turn) : List Item := t.chunks.map .chunk ++ t.ending.toList.map .failure

theorem Turn.ne_stall (t : Turn) : ∀ i ∈ t.body, i ≠ .stall := by
  intro i hi
  rcases List.mem_append.1 hi with hi | hi
  · obtain ⟨b, -, rfl⟩ := List.mem_map.1 hi
    exact nofun
  · obtain ⟨e, -, rfl⟩ := List.mem_map.1 hi
    exact nofun

/-- The response to a request for which a turn stands in the script, if every object ends at
`total`. -/
def Turn.response (total : UInt64) (q : Request) (t : Turn) : Response where
  etag := t.etag
  length := some (.ofNat (total.toNat - q.offset))
  body := t.body

/-- The answer to a request for which a turn stands in the script. There is no response behind the
end, nor where the body reaches beyond the largest offset. -/
def Turn.answer (total : UInt64) (q : Request) (t : Turn) : Answer :=
  if q.offset ≤ total.toNat ∧ q.offset + (t.response total q).bytes.length < UInt64.size then
    .response (t.response total q)
  else .failure (.io "Range not satisfiable")

/-- The store that follows a script and declares that every object ends at `total`. Behind the end
of the script all requests fail. -/
def scripted (total : UInt64) : Store (List (Except Failure Turn)) where
  get q script :=
    match script with
    | [] => (.failure (.io "Nothing is planned any more"), [])
    | .error e :: rest => (.failure e, rest)
    | .ok turn :: rest => (turn.answer total q, rest)

theorem Turn.declares (total : UInt64) (q : Request) (t : Turn) :
    Exchange.Declares total ⟨q, t.answer total q⟩ := by
  unfold answer
  split
  · rename_i hfits
    obtain ⟨hle, hlt⟩ := hfits
    have hlength : (UInt64.ofNat (total.toNat - q.offset)).toNat = total.toNat - q.offset :=
      UInt64.toNat_ofNat_of_lt' (Nat.lt_of_le_of_lt (Nat.sub_le _ _) total.toNat_lt)
    refine ⟨t.ne_stall, ?_, ?_⟩
    · rintro r ⟨⟩
      exact ⟨_, rfl, by rw [hlength]; exact Nat.add_sub_cancel' hle⟩
    · rintro r ⟨⟩
      exact hlt
  · exact ⟨trivial, nofun, nofun⟩

theorem declares_scripted (total : UInt64) (q : Request) (script : List (Except Failure Turn)) :
    Exchange.Declares total ⟨q, ((scripted total).get q script).1⟩ := by
  cases script with
  | nil => exact ⟨trivial, nofun, nofun⟩
  | cons turn rest =>
    cases turn with
    | error e => exact ⟨trivial, nofun, nofun⟩
    | ok turn => exact turn.declares total q

/-- A store that gives prepared answers, whatever it is asked for. Behind the last one all requests
fail. -/
def tape : Store (List Answer) where
  get _ answers :=
    match answers with
    | [] => (.failure (.io "Nothing is planned any more"), [])
    | answer :: rest => (answer, rest)

end QueryResults.Store
