import PageTree.Json.Coercion

/-!
# Paths into the state

The state of a page is a value, and keys are paths with dots. Reading goes down a segment at a
time; a value on the way that does not count as true is the answer. Writing makes objects on the
way where there is nothing. An array is entered by an index of one of its items, or by its length
to append an item. A write that cannot be done changes nothing.

## Main definitions

* `Json.valueAt`, `Json.withValueAt?`
-/

namespace PageTree

/-- The segments of a key: at least one. -/
def keySegments (key : String) : List String :=
  (Text.split '.' key.toList).map String.ofList

/-- The index that a segment names: digits, perhaps after a plus sign, for a number below
`2 ^ 64`. -/
def index? (segment : String) : Option Nat :=
  let digits :=
    match segment.toList with
    | '+' :: digits => digits
    | digits => digits
  if digits.isEmpty || !digits.all Char.isDigit then none
  else
    let n := naturalOf (digits.map digitValue)
    if n < twoTo 64 then some n else none

namespace Json

/-- The value that a segment names inside a container. -/
def child? (segment : String) : Json → Option Json
  | .obj members => members.lookup segment
  | .arr items => (index? segment).bind fun i => items[i]?
  | _ => none

/-- The value at the end of a path. -/
def at? : List String → Json → Option Json
  | [], value => some value
  | segment :: path, value =>
    if truthy (some value) then (value.child? segment).bind (at? path) else some value

/-- The value under a key. -/
def valueAt (key : String) (state : Json) : Option Json :=
  state.at? (keySegments key)

/-- Writes a value at the end of a path; a missing container on the way is an empty object. -/
def put? (written : Json) : List String → Json → Option Json
  | [], _ => some written
  | segment :: path, .obj members =>
    (put? written path ((members.lookup segment).getD (.obj []))).map fun value =>
      .obj (OrderedMap.set segment value members)
  | segment :: path, .arr items =>
    match index? segment with
    | none => none
    | some i =>
      if i < items.length then
        (put? written path (items.getD i .null)).map fun value => .arr (items.set i value)
      else if i = items.length then
        (put? written path (.obj [])).map fun value => .arr (items ++ [value])
      else none
  | _ :: _, _ => none

/-- The state with a value written under a key, if that can be done. -/
def withValueAt? (state : Json) (key : String) (written : Json) : Option Json :=
  put? written (keySegments key) state

end Json

end PageTree
