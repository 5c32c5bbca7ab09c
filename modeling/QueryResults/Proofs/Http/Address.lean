import QueryResults.Proofs.Http.Download
import QueryResults.Proofs.Location

/-!
# Addresses of objects

The text of the URL of an object is the endpoint, its bucket and its key, joined by slashes. A
bucket holds no slash, so the text tells where the bucket ends. The key is written without the
slashes it begins with, and how many there were is lost: locations that differ in nothing else have
the same text, although they are different objects to a store that takes keys as they are. All other
locations have different texts. What becomes of a text when a request is built of it is not looked
at here; the same text is read in the same way.

## Main definitions

* `Location.Alike`: two locations that differ at most in the slashes their keys begin with.

## Main results

* `Http.objectUrl_eq_iff`: which locations have the same text.
* `Http.url_eq_iff_alike`: which drafts of requests have the same text for a URL.
* `Http.objectRequest_collides`: two objects with the same draft.
-/

namespace QueryResults

namespace Location

/-- The same bucket, and keys that differ at most in the number of slashes they begin with. -/
def Alike (l₁ l₂ : Location) : Prop :=
  l₁.bucket = l₂.bucket ∧ ∃ (m n : Nat) (rest : List Char),
    l₁.key.toList = List.replicate m '/' ++ rest ∧ l₂.key.toList = List.replicate n '/' ++ rest

/-- Whether the key begins with a slash. -/
def HasSlashKey (l : Location) : Prop := l.key.toList.head? = some '/'

theorem eq_zero_of_not_hasSlashKey {l : Location} (h : ¬ l.HasSlashKey) {m : Nat}
    {rest : List Char} (hkey : l.key.toList = List.replicate m '/' ++ rest) : m = 0 := by
  cases m with
  | zero => rfl
  | succ m =>
    refine absurd ?_ h
    rw [HasSlashKey, hkey]
    rfl

/-- Where no key begins with a slash, different locations are not alike. -/
theorem Alike.eq {l₁ l₂ : Location} (h : l₁.Alike l₂) (h₁ : ¬ l₁.HasSlashKey)
    (h₂ : ¬ l₂.HasSlashKey) : l₁ = l₂ := by
  obtain ⟨hbucket, m, n, rest, hkey₁, hkey₂⟩ := h
  cases eq_zero_of_not_hasSlashKey h₁ hkey₁
  cases eq_zero_of_not_hasSlashKey h₂ hkey₂
  have hkey : l₁.key = l₂.key := String.toList_inj.1 (hkey₁.trans hkey₂.symm)
  calc l₁ = ⟨l₁.bucket, l₁.key⟩ := rfl
    _ = ⟨l₂.bucket, l₂.key⟩ := by rw [hbucket, hkey]

end Location

namespace Http

/-! ### Trimming -/

/-- Slashes are all that is trimmed off. -/
theorem exists_eq_replicate_append (text : List Char) :
    ∃ m, text = List.replicate m '/' ++ text.dropWhile (· = '/') := by
  have hslashes : text.takeWhile (· = '/') =
      List.replicate (text.takeWhile (· = '/')).length '/' := by
    refine List.eq_replicate_of_mem fun c hc => ?_
    simpa using List.mem_takeWhile_imp hc
  refine ⟨(text.takeWhile (· = '/')).length, ?_⟩
  rw [← hslashes, List.takeWhile_append_dropWhile]

/-- All slashes at the beginning are trimmed off. -/
theorem dropWhile_replicate_append (m : Nat) (rest : List Char) :
    (List.replicate m '/' ++ rest).dropWhile (· = '/') = rest.dropWhile (· = '/') := by
  refine List.dropWhile_append_of_pos fun c hc => ?_
  exact decide_eq_true (List.eq_of_mem_replicate hc)

/-- What is left of two texts is the same if and only if they differ at most in the slashes they
begin with. -/
theorem trimStartSlashes_eq_iff {a b : String} :
    trimStartSlashes a = trimStartSlashes b ↔ ∃ (m n : Nat) (rest : List Char),
      a.toList = List.replicate m '/' ++ rest ∧ b.toList = List.replicate n '/' ++ rest := by
  constructor
  · intro h
    have hrest : a.toList.dropWhile (· = '/') = b.toList.dropWhile (· = '/') :=
      String.ofList_injective h
    obtain ⟨m, hm⟩ := exists_eq_replicate_append a.toList
    obtain ⟨n, hn⟩ := exists_eq_replicate_append b.toList
    exact ⟨m, n, _, hm, by rw [hrest]; exact hn⟩
  · rintro ⟨m, n, rest, ha, hb⟩
    rw [trimStartSlashes, trimStartSlashes, ha, hb, dropWhile_replicate_append,
      dropWhile_replicate_append]

/-! ### Texts -/

/-- The first slash tells what stands before it and what follows. -/
theorem append_slash_inj {a₁ a₂ b₁ b₂ : List Char} (h₁ : '/' ∉ a₁) (h₂ : '/' ∉ a₂) :
    a₁ ++ '/' :: b₁ = a₂ ++ '/' :: b₂ ↔ a₁ = a₂ ∧ b₁ = b₂ := by
  constructor
  · intro h
    have hfront : a₁ = a₂ := by
      rw [← (Location.takeWhile_slash h₁ b₁).1, h, (Location.takeWhile_slash h₂ b₂).1]
    subst hfront
    exact ⟨rfl, List.tail_eq_of_cons_eq (List.append_cancel_left h)⟩
  · rintro ⟨rfl, rfl⟩
    rfl

theorem toList_objectUrl (endpoint : String) (l : Location) :
    (objectUrl endpoint l).toList = (trimEndSlashes endpoint).toList ++
      '/' :: (l.bucket.toList ++ '/' :: (trimStartSlashes l.key).toList) := by
  simp [objectUrl]

/-- The texts for two proper locations are the same if and only if the locations are alike. -/
theorem objectUrl_eq_iff (endpoint : String) {l₁ l₂ : Location} (h₁ : l₁.IsProper)
    (h₂ : l₂.IsProper) : objectUrl endpoint l₁ = objectUrl endpoint l₂ ↔ l₁.Alike l₂ := by
  rw [← String.toList_inj, toList_objectUrl, toList_objectUrl, List.append_right_inj,
    List.cons_inj_right, append_slash_inj h₁.slash_notMem h₂.slash_notMem, String.toList_inj,
    String.toList_inj, trimStartSlashes_eq_iff, Location.Alike]

/-- At every endpoint, the drafts of two requests for objects have the same text for a URL if and
only if their locations, as read from texts, are alike, whatever else is asked for. So where no key
begins with a slash, the texts for different objects are different. -/
theorem url_eq_iff_alike (endpoint : String) (q₁ q₂ : Store.Request) {u₁ u₂ : String}
    (h₁ : Location.parse u₁ = .ok q₁.location) (h₂ : Location.parse u₂ = .ok q₂.location) :
    ((objectRequest endpoint q₁).url = (objectRequest endpoint q₂).url ↔
        q₁.location.Alike q₂.location) ∧
      (¬ q₁.location.HasSlashKey → ¬ q₂.location.HasSlashKey →
        ((objectRequest endpoint q₁).url = (objectRequest endpoint q₂).url ↔
          q₁.location = q₂.location)) := by
  have hurl : (objectRequest endpoint q₁).url = (objectRequest endpoint q₂).url ↔
      q₁.location.Alike q₂.location :=
    objectUrl_eq_iff endpoint (Location.parse_eq_ok_iff.1 h₁).2 (Location.parse_eq_ok_iff.1 h₂).2
  exact ⟨hurl, fun hkey₁ hkey₂ =>
    ⟨fun h => (hurl.1 h).eq hkey₁ hkey₂, congrArg (objectUrl endpoint)⟩⟩

/-- The key of one request begins with three slashes, the key of the other with none. -/
theorem url_eq_iff_alike_slashes :
    Location.parse "s3://b////k?/" = .ok ⟨"b", "///k?/"⟩ ∧
      Location.parse "s3://b/k?/" = .ok ⟨"b", "k?/"⟩ ∧
      (objectRequest "s3.test/" { location := ⟨"b", "///k?/"⟩, start := some 7 }).url =
        (objectRequest "s3.test/" { location := ⟨"b", "k?/"⟩ }).url := by
  have h₁ : Location.parse "s3://b////k?/" = .ok ⟨"b", "///k?/"⟩ := by cbv
  have h₂ : Location.parse "s3://b/k?/" = .ok ⟨"b", "k?/"⟩ := by cbv
  have halike : Location.Alike ⟨"b", "///k?/"⟩ ⟨"b", "k?/"⟩ :=
    ⟨rfl, 3, 0, ['k', '?', '/'], by decide, by decide⟩
  exact ⟨h₁, h₂, (url_eq_iff_alike "s3.test/" { location := ⟨"b", "///k?/"⟩, start := some 7 }
    { location := ⟨"b", "k?/"⟩ } h₁ h₂).1.2 halike⟩

/-- Two different objects with one draft of a request, so that whatever is built of it the same is
asked of the server. -/
theorem objectRequest_collides :
    Location.parse "s3://b/k" = .ok ⟨"b", "k"⟩ ∧ Location.parse "s3://b//k" = .ok ⟨"b", "/k"⟩ ∧
      (⟨"b", "k"⟩ : Location) ≠ ⟨"b", "/k"⟩ ∧
      (objectRequest "https://s3.test" { location := ⟨"b", "k"⟩ }).url = "https://s3.test/b/k" ∧
      objectRequest "https://s3.test" { location := ⟨"b", "/k"⟩ } =
        objectRequest "https://s3.test" { location := ⟨"b", "k"⟩ } := by
  refine ⟨by cbv, by cbv, by decide, by cbv, ?_⟩
  cbv

end Http

end QueryResults
