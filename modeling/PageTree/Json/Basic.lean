import PageTree.Number.Numeral
import PageTree.OrderedMap

/-!
# JSON values

Values with the members of objects in insertion order. Two values are the *same* when they agree
up to the order of members; integers and floats are never the same, and floats are compared as
numbers.
-/

namespace PageTree

/-- A JSON value. -/
inductive Json where
  | null
  | bool (value : Bool)
  | num (value : Number)
  | str (value : String)
  | arr (items : List Json)
  | obj (members : List (String × Json))
  deriving Inhabited

namespace Json

/-- The text of a string value. -/
def string? : Json → Option String
  | .str value => some value
  | _ => none

/-- The items of an array. -/
def items? : Json → Option (List Json)
  | .arr items => some items
  | _ => none

/-- The members of an object. -/
def members? : Json → Option (OrderedMap Json)
  | .obj members => some members
  | _ => none

/-- The member of an object under a key. -/
def member? (key : String) (value : Json) : Option Json :=
  value.members?.bind (·.lookup key)

/-- The value is `null`. -/
def isNull : Json → Bool
  | .null => true
  | _ => false

mutual

/-- Equality up to the order of members. -/
def same : Json → Json → Bool
  | .null, .null => true
  | .bool a, .bool b => a == b
  | .num a, .num b => a.same b
  | .str a, .str b => a == b
  | .arr xs, .arr ys => sameItems xs ys
  | .obj ms, .obj ns => ms.length == ns.length && sameMembers ms ns
  | _, _ => false

/-- Equality of arrays, item by item. -/
def sameItems : List Json → List Json → Bool
  | [], [] => true
  | x :: xs, y :: ys => x.same y && sameItems xs ys
  | _, _ => false

/-- Each member has its like in the other object. -/
def sameMembers : List (String × Json) → List (String × Json) → Bool
  | [], _ => true
  | (key, value) :: members, others =>
    (match others.lookup key with
      | some other => value.same other
      | none => false) && sameMembers members others

end

end Json

end PageTree
