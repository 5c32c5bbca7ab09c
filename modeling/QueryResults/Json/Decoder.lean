import QueryResults.Json.Parser

/-!
# Typed readings of JSON values

A record with fixed fields is read from an object or from an array. In an object the fields may come
in any order, members with other keys do not count, and a field must not come twice. In an array the
values stand in the order of the fields; trailing fields may be missing, and more values than fields
are refused.

## Main definitions

* `Json.Value.fields`: the values of a record's fields.
* `Json.required`, `Json.optional`, `Json.orDefault`: a field that must be there, one that may be
  absent or null, and one that may only be absent.
-/

namespace QueryResults.Json

/-- The values of the members whose key is one of `names`. -/
def valuesOf (names : List String) (members : List (String × Value)) : List Value :=
  (members.filter fun m => names.contains m.1).map (·.2)

/-- The value of the only member whose key is one of `names`, if there is a member; refused if there
are several. -/
def memberOf (members : List (String × Value)) (names : List String) : Option (Option Value) :=
  match valuesOf names members with
  | [] => some none
  | [v] => some (some v)
  | _ => none

/-- The members of an object by their keys' texts; every key must have one. -/
def textMembers (members : List (Option String × Value)) : Option (List (String × Value)) :=
  members.mapM fun m => m.1.map fun k => (k, m.2)

/-- The values of a record's fields, each field given by the names it may have. -/
def Value.fields (names : List (List String)) : Value → Option (List (Option Value))
  | .object members => do
    let members ← textMembers members
    names.mapM (memberOf members)
  | .array items =>
    if items.length ≤ names.length then
      some (items.map some ++ List.replicate (names.length - items.length) none)
    else none
  | _ => none

/-- A field that must be there. -/
def required {α : Type} (read : Value → Option α) : Option Value → Option α
  | some v => read v
  | none => none

/-- A field that may be absent or null. -/
def optional {α : Type} (read : Value → Option α) : Option Value → Option (Option α)
  | none | some .null => some none
  | some v => (read v).map some

/-- A field that may be absent and then has a default. -/
def orDefault {α : Type} (default : α) (read : Value → Option α) : Option Value → Option α
  | none => some default
  | some v => read v

/-- A text. -/
def Value.text : Value → Option String
  | .string t => t
  | _ => none

/-- A truth value. -/
def Value.flag : Value → Option Bool
  | .bool b => some b
  | _ => none

/-- An integer of 32 bits with a sign. -/
def Value.int32 : Value → Option Int
  | .number (.integer n) => if -2147483648 ≤ n ∧ n < 2147483648 then some n else none
  | _ => none

/-- An array, each item read alike. -/
def Value.list {α : Type} (read : Value → Option α) : Value → Option (List α)
  | .array items => items.mapM read
  | _ => none

/-- A bare name: a string, or an object with the name as its only key and null as its value. -/
def Value.name : Value → Option String
  | .string t => t
  | .object [(key, .null)] => key
  | _ => none

end QueryResults.Json
