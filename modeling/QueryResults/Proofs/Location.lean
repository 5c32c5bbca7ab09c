import Mathlib.Data.List.Basic
import Mathlib.Data.List.TakeWhile
import QueryResults.Cursor.Streamed

/-!
# Written locations

A location is read from exactly one text, its written form, if it has a bucket and a key and the
bucket holds no slash; every other location has no text that is read for it. The first slash behind
the scheme ends the bucket, so the key may hold anything: slashes at its beginning, further ones,
and the scheme itself.

What is appended to a written location is appended to the key. So the sidecar of a file has the
written location of the file, with `.metadata` behind it.

## Main definitions

* `Location.IsProper`: the locations that are read from a text.

## Main results

* `Location.parse_eq_ok_iff`: a text is read for a proper location it is the written form of.
* `Location.parse_append`: appending to a text appends to the key.
* `Location.parse_inverse`: reading and writing are inverse to each other.
-/

namespace QueryResults

namespace Location

/-- A bucket without slashes and a key, neither of which is empty. -/
structure IsProper (l : Location) : Prop where
  bucket_ne : l.bucket ≠ ""
  slash_notMem : '/' ∉ l.bucket.toList
  key_ne : l.key ≠ ""

/-! ### Reading -/

/-- What is left without a front is all that follows it. -/
theorem dropFront?_eq_some_iff {front text rest : List Char} :
    dropFront? front text = some rest ↔ text = front ++ rest := by
  induction front generalizing text with
  | nil => simp [dropFront?]
  | cons c front ih =>
    cases text with
    | nil => simp [dropFront?]
    | cons d text =>
      unfold dropFront?
      split
      next h => simp [h, ih]
      next h => simp [Ne.symm h]

theorem toList_text (l : Location) :
    l.text.toList = scheme.toList ++ (l.bucket.toList ++ '/' :: l.key.toList) := by
  simp [text]

/-- The characters in front of the first slash and those from it on. -/
theorem takeWhile_slash {front : List Char} (h : '/' ∉ front) (back : List Char) :
    (front ++ '/' :: back).takeWhile (· ≠ '/') = front ∧
      (front ++ '/' :: back).dropWhile (· ≠ '/') = '/' :: back := by
  have hfront : ∀ c ∈ front, decide (c ≠ '/') = true := by
    intro c hc
    exact decide_eq_true fun heq => h (heq ▸ hc)
  rw [List.takeWhile_append_of_pos hfront, List.dropWhile_append_of_pos hfront]
  simp

/-- The written form of a proper location is read. -/
theorem parseChars_text {l : Location} (h : l.IsProper) : parseChars l.text.toList = .ok l := by
  obtain ⟨bucket, key⟩ := l
  obtain ⟨htake, hdrop⟩ := takeWhile_slash h.slash_notMem key.toList
  obtain ⟨b, bs, hb⟩ := List.exists_cons_of_ne_nil (mt String.toList_eq_nil_iff.1 h.bucket_ne)
  obtain ⟨k, ks, hk⟩ := List.exists_cons_of_ne_nil (mt String.toList_eq_nil_iff.1 h.key_ne)
  unfold parseChars
  rw [dropFront?_eq_some_iff.2 (toList_text _)]
  simp only [htake, hdrop]
  rw [hb, hk]
  simp only
  rw [← hb, ← hk, String.ofList_toList, String.ofList_toList]

/-- Only the written form of a proper location is read for it. -/
theorem of_parseChars {uri : List Char} {l : Location} (h : parseChars uri = .ok l) :
    uri = l.text.toList ∧ l.IsProper := by
  unfold parseChars at h
  split at h
  · cases h
  · rename_i rest hrest
    split at h
    · rename_i b bucket c k key htake hdrop
      cases h
      have hslash : '/' ∉ b :: bucket := by
        intro hmem
        rw [← htake] at hmem
        simpa using List.mem_takeWhile_imp hmem
      have hc : c = '/' := by
        have hhead := List.head?_dropWhile_not (· ≠ '/') rest
        rw [hdrop] at hhead
        simpa using hhead
      have hsplit : rest = b :: bucket ++ c :: k :: key := by
        rw [← htake, ← hdrop, List.takeWhile_append_dropWhile]
      refine ⟨?_, by simp, by simpa using hslash, by simp⟩
      rw [dropFront?_eq_some_iff.1 hrest, toList_text, hsplit, hc]
      simp
    · cases h

/-- A text is read for a location if and only if it is the written form of the location, and the
location is proper. -/
theorem parse_eq_ok_iff {uri : String} {l : Location} :
    parse uri = .ok l ↔ uri = l.text ∧ l.IsProper := by
  have hchars : parse uri = .ok l ↔ parseChars uri.toList = .ok l := by
    unfold parse
    cases parseChars uri.toList <;> simp [Except.mapError]
  rw [hchars]
  constructor
  · intro h
    obtain ⟨huri, hproper⟩ := of_parseChars h
    exact ⟨String.toList_inj.1 huri, hproper⟩
  · rintro ⟨rfl, hproper⟩
    exact parseChars_text hproper

/-- A text that is not read is an invalid argument. -/
theorem kind_of_parse_error {uri : String} {e : Failure} (h : parse uri = .error e) :
    e.kind = .invalidArgument := by
  unfold parse at h
  cases hchars : parseChars uri.toList with
  | error fault =>
    rw [hchars] at h
    cases h
    rfl
  | ok l =>
    rw [hchars] at h
    cases h

/-! ### Appending -/

theorem text_withKeySuffix (l : Location) (suffix : String) :
    (l.withKeySuffix suffix).text = l.text ++ suffix := by
  simp only [text, withKeySuffix, String.append_assoc]

theorem IsProper.withKeySuffix {l : Location} (h : l.IsProper) (suffix : String) :
    (l.withKeySuffix suffix).IsProper where
  bucket_ne := h.bucket_ne
  slash_notMem := h.slash_notMem
  key_ne := by
    intro hkey
    have : l.key.toList ++ suffix.toList = [] := by
      rw [← String.toList_append]
      exact String.toList_eq_nil_iff.2 hkey
    exact h.key_ne (String.toList_eq_nil_iff.1 (List.append_eq_nil_iff.1 this).1)

/-- What is appended to a text that is read is appended to the key. -/
theorem parse_append {uri : String} {l : Location} (h : parse uri = .ok l) (suffix : String) :
    parse (uri ++ suffix) = .ok (l.withKeySuffix suffix) := by
  obtain ⟨rfl, hproper⟩ := parse_eq_ok_iff.1 h
  exact parse_eq_ok_iff.2 ⟨(text_withKeySuffix l suffix).symm, hproper.withKeySuffix suffix⟩

/-! ### Reading and writing -/

/-- A text is read for a location if it is made of the scheme, a bucket without slashes, a slash and
a key, with bucket and key not empty, and these are the bucket and the key of the location, which is
then written as the same text. Every other text is an invalid argument. What is appended to a text
that is read is appended to the key; in particular, the columns of a result file are described where
the text with `.metadata` behind it says. -/
theorem parse_inverse (uri : String) :
    (∀ l : Location, parse uri = .ok l ↔ uri = "s3://" ++ l.bucket ++ "/" ++ l.key ∧
      l.bucket ≠ "" ∧ '/' ∉ l.bucket.toList ∧ l.key ≠ "") ∧
    (∀ l : Location, parse uri = .ok l → toString l = uri) ∧
    ((∃ l : Location, parse uri = .ok l) ∨
      ∃ e : Failure, e.kind = .invalidArgument ∧ parse uri = .error e) ∧
    (∀ (l : Location) (suffix : String), parse uri = .ok l →
      parse (uri ++ suffix) = .ok (l.withKeySuffix suffix)) ∧
    (∀ (settings : Settings.Download) (interrupt : Token) (c : Cursor.Streamed),
      Cursor.Streamed.ofUri uri settings interrupt = .ok c →
        parse (uri ++ ".metadata") = .ok c.sidecar) := by
  refine ⟨fun l => ?_, fun l h => ?_, ?_, fun l suffix h => parse_append h suffix, ?_⟩
  · rw [parse_eq_ok_iff]
    constructor
    · rintro ⟨huri, hproper⟩
      exact ⟨huri, hproper.bucket_ne, hproper.slash_notMem, hproper.key_ne⟩
    · rintro ⟨huri, hbucket, hslash, hkey⟩
      exact ⟨huri, hbucket, hslash, hkey⟩
  · exact (parse_eq_ok_iff.1 h).1.symm
  · cases h : parse uri with
    | ok l => exact .inl ⟨l, rfl⟩
    | error e => exact .inr ⟨e, kind_of_parse_error h, rfl⟩
  · intro settings interrupt c h
    unfold Cursor.Streamed.ofUri at h
    cases hparse : parse uri with
    | error e =>
      rw [hparse] at h
      cases h
    | ok l =>
      rw [hparse] at h
      cases h
      exact parse_append hparse ".metadata"

/-- A key may begin with a slash and go on with the scheme. -/
theorem parse_inverse_nested :
    parse "s3://b//s3://c" = .ok ⟨"b", "/s3://c"⟩ ∧
      toString (⟨"b", "/s3://c"⟩ : Location) = "s3://b//s3://c" ∧
      parse ("s3://b//s3://c" ++ ".metadata") = .ok ⟨"b", "/s3://c.metadata"⟩ := by
  have h := parse_inverse "s3://b//s3://c"
  have hparse : parse "s3://b//s3://c" = .ok ⟨"b", "/s3://c"⟩ :=
    (h.1 ⟨"b", "/s3://c"⟩).2 ⟨rfl, by decide, by decide, by decide⟩
  exact ⟨hparse, h.2.1 _ hparse, h.2.2.2.1 _ ".metadata" hparse⟩

end Location

end QueryResults
