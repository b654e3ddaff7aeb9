import PageTree.Json.Basic

/-!
# JSON texts before their values are taken

A `Literal` is what a JSON text says, before anyone asks for a value: members are listed as
written, repeated keys included, and a part that is well formed but has no value is `unusable`.
That is a number too large for a float, a string with half of a surrogate pair, and a container
nested too deep. A reader of records skips members that it does not know, so such a part is an
error only where its value is asked for.

## Main definitions

* `Literal.value?`: the value of a literal without unusable parts
* `Json.literal`: a value as a literal
-/

namespace PageTree

/-- What a JSON text says. -/
inductive Literal where
  | null
  | bool (value : Bool)
  | num (value : Number)
  | str (value : String)
  | arr (items : List Literal)
  | obj (members : List (String × Literal))
  | unusable
  deriving Inhabited

mutual

/-- The value of a literal. A repeated key keeps its first place and its last value. -/
def Literal.value? : Literal → Option Json
  | .null => some .null
  | .bool value => some (.bool value)
  | .num value => some (.num value)
  | .str value => some (.str value)
  | .arr items => (itemValues? items).map .arr
  | .obj members => (memberValues? members).map fun entries => .obj (OrderedMap.ofEntries entries)
  | .unusable => none

/-- The values of an array's items. -/
def itemValues? : List Literal → Option (List Json)
  | [] => some []
  | item :: items =>
    match item.value?, itemValues? items with
    | some value, some values => some (value :: values)
    | _, _ => none

/-- The values of an object's members, repeated keys included. -/
def memberValues? : List (String × Literal) → Option (List (String × Json))
  | [] => some []
  | (key, member) :: members =>
    match member.value?, memberValues? members with
    | some value, some values => some ((key, value) :: values)
    | _, _ => none

end

mutual

/-- A value as a literal. -/
def Json.literal : Json → Literal
  | .null => .null
  | .bool value => .bool value
  | .num value => .num value
  | .str value => .str value
  | .arr items => .arr (itemLiterals items)
  | .obj members => .obj (memberLiterals members)

/-- The literals of an array's items. -/
def itemLiterals : List Json → List Literal
  | [] => []
  | item :: items => item.literal :: itemLiterals items

/-- The literals of an object's members. -/
def memberLiterals : List (String × Json) → List (String × Literal)
  | [] => []
  | (key, member) :: members => (key, member.literal) :: memberLiterals members

end

end PageTree
