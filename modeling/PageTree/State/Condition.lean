import PageTree.State.Path
import PageTree.Tree.Event

/-!
# Conditions on the state

What a condition asks of the value under its key. Texts are compared with texts by their code
points; in any other case both sides are compared as numbers, and what is not a number compares
with nothing.

## Main definitions

* `Condition.holds`
-/

namespace PageTree

namespace Json

/-- A container as the text that it is shown by; other values as they are. -/
def primitive : Json → Json
  | .arr items => .str (Json.arr items).shown
  | .obj members => .str (Json.obj members).shown
  | value => value

/-- How two values compare. -/
def compare? (a b : Option Json) : Option Ordering :=
  match a.map primitive, b.map primitive with
  | some (.str x), some (.str y) => some (compare x y)
  | a, b => (toNumber a).compare? (toNumber b)

/-- A value contains another: as an item of an array, else as a part of its text. -/
def contains (whole part : Option Json) : Bool :=
  match whole with
  | some (.arr items) => items.any fun item => strictlyEqual (some item) part
  | whole => Text.occursIn (shown? part).toList (shown? whole).toList

end Json

/-- A relation holds between two values. -/
def Relation.holds (relation : Relation) (actual expected : Option Json) : Bool :=
  match relation with
  | .equal => Json.strictlyEqual actual expected
  | .differs => !Json.strictlyEqual actual expected
  | .greater => Json.compare? actual expected == some .gt
  | .less => Json.compare? actual expected == some .lt
  | .atLeast =>
    Json.compare? actual expected == some .gt || Json.compare? actual expected == some .eq
  | .atMost =>
    Json.compare? actual expected == some .lt || Json.compare? actual expected == some .eq
  | .truthy => Json.truthy actual
  | .falsy => !Json.truthy actual
  | .contains => Json.contains actual expected

/-- A condition holds in a state. -/
def Condition.holds (state : Json) (c : Condition) : Bool :=
  c.relation.holds (state.valueAt c.key) c.value

end PageTree
