import QueryResults.Failure

/-!
# Locations in an object store

The location of an object is a bucket and a key, written `s3://bucket/key`. The bucket ends at the
first slash; the key is all the rest and may hold further slashes. Neither is empty.

## Main definitions

* `Location`, `Location.text`, `Location.parse`.
* `Location.withKeySuffix`: the neighbour of an object whose key is longer by a suffix.
-/

namespace QueryResults

/-- Bucket and key of an object. -/
structure Location where
  bucket : String
  key : String
  deriving DecidableEq, Repr

namespace Location

/-- What every written location starts with. -/
def scheme : String := "s3://"

/-- The written form. -/
def text (l : Location) : String := scheme ++ l.bucket ++ "/" ++ l.key

instance : ToString Location := ⟨text⟩

/-- The same bucket, and the key with `suffix` appended. -/
def withKeySuffix (l : Location) (suffix : String) : Location :=
  { l with key := l.key ++ suffix }

/-- Why a text is not a location. -/
inductive ParseError where
  | noScheme
  | noBucketOrKey
  deriving DecidableEq, Repr

/-- The message for a text that is not a location. -/
def ParseError.message (uri : String) : ParseError → String
  | noScheme => s!"Output location is not an s3:// URI: {uri}"
  | noBucketOrKey => s!"Output location has no bucket or key: {uri}"

/-- The characters after `front`, if the text starts with it. -/
def dropFront? : List Char → List Char → Option (List Char)
  | [], text => some text
  | _ :: _, [] => none
  | c :: front, d :: text => if c = d then dropFront? front text else none

/-- Reads a written location from its characters. -/
def parseChars (uri : List Char) : Except ParseError Location :=
  match dropFront? scheme.toList uri with
  | none => .error .noScheme
  | some rest =>
    match rest.takeWhile (· ≠ '/'), rest.dropWhile (· ≠ '/') with
    | b :: bucket, _ :: k :: key =>
      .ok { bucket := .ofList (b :: bucket), key := .ofList (k :: key) }
    | _, _ => .error .noBucketOrKey

/-- Reads a written location. -/
def parse (uri : String) : Except Failure Location :=
  (parseChars uri.toList).mapError fun e => .invalidArgument (e.message uri)

end Location

end QueryResults
