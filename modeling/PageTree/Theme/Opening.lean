import PageTree.Json.Coercion
import PageTree.Tree.Kind

/-!
# Opening tags

The tag and the attributes that a theme gives a node, and the parts of them that themes share. A
property of a node goes into an attribute when it counts as true.

## Main definitions

* `Opening`
-/

namespace PageTree

/-- A tag with its attributes. An attribute without a value is one that is merely present. -/
structure Opening where
  /-- The tag. -/
  tag : String
  /-- The attributes in order. -/
  attributes : OrderedMap String := []
  deriving DecidableEq, Repr

/-- Properties of a node. -/
abbrev Props := OrderedMap Json

namespace Props

/-- The property counts as true. -/
def holds (key : String) (props : Props) : Bool :=
  Json.truthy (props.lookup key)

/-- The property as a page shows it, if it counts as true. -/
def shownIf (key : String) (props : Props) : Option String :=
  if holds key props then (props.lookup key).map Json.shown else none

/-- An attribute with the value of a property that counts as true. -/
def copy (key name : String) (props : Props) : OrderedMap String :=
  ((shownIf key props).map fun value => (name, value)).toList

/-- An attribute without value, named like the property, when that counts as true. -/
def flag (key : String) (props : Props) : OrderedMap String :=
  if holds key props then [(key, "")] else []

/-- The level of a heading: the whole part of the property, at least one and at most six; two
when it is not a number. -/
def headingLevel (props : Props) : Nat :=
  match props.lookup "level" with
  | some (.num level) =>
    let x := level.toBinary64
    if x.isNegative then 1 else min (max x.wholePart 1) 6
  | _ => 2

/-- The tag of a heading. -/
def headingTag (props : Props) : String :=
  "h" ++ toString (headingLevel props)

/-- The columns of a grid: a number gives that many equal columns. -/
def gridTemplate (props : Props) : String :=
  match props.lookup "columns" with
  | some (.num columns) => "repeat(" ++ (Json.num columns).shown ++ ", 1fr)"
  | some value => value.shown
  | none => "auto"

/-- The style of a spacer. -/
def spacerStyle (props : Props) : String :=
  "height:" ++ ((props.lookup "size").map Json.shown).getD "1rem" ++ ";flex-shrink:0"

/-- The type of an input: the first of two properties that is there decides. -/
def inputType (props : Props) : String :=
  match (props.lookup "inputType").or (props.lookup "type") with
  | none => "text"
  | some .null => "text"
  | some value => value.shown

/-- The attributes of an input. -/
def inputAttributes (props : Props) : OrderedMap String :=
  ("type", inputType props) :: copy "placeholder" "placeholder" props ++
    copy "name" "name" props ++
    ((props.lookup "value").map fun value => ("value", value.shown)).toList ++
    flag "required" props ++ flag "disabled" props

end Props

end PageTree
