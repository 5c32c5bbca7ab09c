import QueryResults.Proofs.Record.RoundTrip

/-!
# Records within records

A payload may be a written record itself, whose payloads may be written records again. A payload is
no longer than the record it stands in, so that the lengths of all records within a record have
64 bits as soon as those of the outermost payloads have, as is the case for whatever fits into a
memory. Reading the outermost record and then one payload after the other therefore comes to every
record within it, however deep it lies.

## Main definitions

* `Record.Within`: the records within a record.

## Main results

* `Record.Within.isShort`: the payloads of a record within a record are short.
* `Record.Within.decode_nested`: reading comes to every record within a record.
-/

namespace QueryResults.Record

/-- The fields of a record that stands in another one, at any depth. -/
inductive Within (outer : List Field) : List Field → Prop where
  /-- The record itself. -/
  | outermost : Within outer outer
  /-- A payload that is the written form of `inner`, in a record within the outer one. -/
  | payload {fields inner : List Field} {f : Field} (hw : Within outer fields) (hf : f ∈ fields)
      (hv : f.value = .bytes (encode inner)) : Within outer inner

/-- The record a field holds is read from its payload. -/
theorem nested_eq_decode {f : Field} {payload : List UInt8} (hv : f.value = .bytes payload) :
    f.nested = decode payload := by
  simp only [Field.nested, Field.asBytes, hv]
  rfl

/-- The record in a short payload has short payloads. -/
theorem isShort_of_payload {f : Field} {inner : List Field} (hf : f.value.IsShort)
    (hv : f.value = .bytes (encode inner)) : ∀ g ∈ inner, g.value.IsShort := by
  rw [hv] at hf
  exact fun g hg => isShort_of_length hf hg

namespace Within

variable {outer fields : List Field}

theorem isShort (hw : Within outer fields) (hshort : ∀ f ∈ outer, f.value.IsShort) :
    ∀ f ∈ fields, f.value.IsShort := by
  induction hw with
  | outermost => exact hshort
  | payload _ hf hv ih => exact isShort_of_payload (ih _ hf) hv

/-- A record is read back as the fields it was written from, in order and with repetitions, and so
is every record within it: from its bytes, and from each field it is the payload of. -/
theorem decode_nested (hw : Within outer fields) (hshort : ∀ f ∈ outer, f.value.IsShort) :
    decode (encode fields) = .ok fields ∧
      ∀ f ∈ fields, ∀ inner, f.value = .bytes (encode inner) → f.nested = .ok inner := by
  have hfields := hw.isShort hshort
  refine ⟨decode_encode hfields, fun f hf inner hv => ?_⟩
  rw [nested_eq_decode hv]
  exact decode_encode (isShort_of_payload (hfields f hf) hv)

end Within

/-- A record in a record in a record, with a repeated field, a number of 64 bits and a field number
of 32 bits. -/
theorem Within.decode_nested_thrice :
    let inmost : List Field := [⟨4294967295, .integer 18446744073709551615⟩, ⟨7, .bytes []⟩]
    let middle : List Field := [⟨1, .integer 0⟩, ⟨1, .integer 300⟩, ⟨2, .bytes (encode inmost)⟩]
    let outer : List Field := [⟨3, .bytes (encode middle)⟩]
    decode (encode outer) = .ok outer ∧
      (∀ f ∈ outer, f.nested = .ok middle) ∧ ∀ f ∈ middle.drop 2, f.nested = .ok inmost := by
  intro inmost middle outer
  have hlen : (encode outer).length < UInt64.size := by decide +kernel
  have hshort : ∀ f ∈ outer, f.value.IsShort := fun f hf => isShort_of_length hlen hf
  have hmiddle : Within outer middle := .payload .outermost List.mem_cons_self rfl
  have hlast : (⟨2, .bytes (encode inmost)⟩ : Field) ∈ middle := by simp [middle]
  refine ⟨(Within.decode_nested .outermost hshort).1, ?_, ?_⟩
  · rintro f hf
    cases List.mem_singleton.1 hf
    exact (Within.decode_nested .outermost hshort).2 _ List.mem_cons_self _ rfl
  · rintro f hf
    cases List.mem_singleton.1 (show f ∈ [(⟨2, .bytes (encode inmost)⟩ : Field)] from hf)
    exact (Within.decode_nested hmiddle hshort).2 _ hlast _ rfl

end QueryResults.Record
