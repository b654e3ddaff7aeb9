import PageTree.Tree.Document

/-!
# Edits

An edit is a small change to a page, addressed to a node by its id. An insertion names a parent
for the two inner places and a sibling for the two outer ones.

## Main definitions

* `Edit`, `Edit.target`
* `Edit.read`, `Edit.json`: edits in JSON
-/

namespace PageTree

/-- Where a node is inserted, seen from the node that is named. -/
inductive Place where
  | prepend | append | before | after
  deriving DecidableEq, Repr

instance : Vocabulary Place where
  all := [.prepend, .append, .before, .after]
  name
    | .prepend => "prepend"
    | .append => "append"
    | .before => "before"
    | .after => "after"
  mem_all a := by cases a <;> decide
  name_injective a b h := by cases a <;> cases b <;> first | rfl | exact absurd h (by decide)

/-- Kinds of edits. -/
inductive EditKind where
  | updateProps | updateStyle | updateText | replace | delete | insert | addEvent | removeEvent
  | updateAnimation
  deriving DecidableEq, Repr

instance : Vocabulary EditKind where
  all := [.updateProps, .updateStyle, .updateText, .replace, .delete, .insert, .addEvent,
    .removeEvent, .updateAnimation]
  name
    | .updateProps => "updateProps"
    | .updateStyle => "updateStyle"
    | .updateText => "updateText"
    | .replace => "replace"
    | .delete => "delete"
    | .insert => "insert"
    | .addEvent => "addEvent"
    | .removeEvent => "removeEvent"
    | .updateAnimation => "updateAnimation"
  mem_all a := by cases a <;> decide
  name_injective a b h := by cases a <;> cases b <;> first | rfl | exact absurd h (by decide)

/-- A change to a page. -/
inductive Edit where
  /-- Sets properties. -/
  | updateProps (target : String) (props : OrderedMap Json)
  /-- Lays a style over the node's. -/
  | updateStyle (target : String) (style : Style)
  /-- Sets the text. -/
  | updateText (target : String) (text : String)
  /-- Puts another node in the place of the node. -/
  | replace (target : String) (node : Node)
  /-- Removes the node. -/
  | delete (target : String)
  /-- Inserts a node. -/
  | insert (target : String) (place : Place) (node : Node)
  /-- Adds a binding. -/
  | addEvent (target : String) (binding : Binding)
  /-- Removes the binding with this index. -/
  | removeEvent (target : String) (index : Nat)
  /-- Sets the motion. -/
  | updateAnimation (target : String) (motion : Motion)

/-- One end of a list of children. -/
inductive Edge where
  | first | last
  deriving DecidableEq, Repr

/-- One side of a sibling. -/
inductive Side where
  | before | after
  deriving DecidableEq, Repr

/-- What an insertion is placed by. -/
inductive Anchor where
  /-- At an end of a parent's children. -/
  | inside (edge : Edge)
  /-- Next to a sibling. -/
  | beside (side : Side)
  deriving DecidableEq, Repr

/-- The anchor of a place. -/
def Place.anchor : Place → Anchor
  | .prepend => .inside .first
  | .append => .inside .last
  | .before => .beside .before
  | .after => .beside .after

namespace Edit

/-- The kind of an edit. -/
def kind : Edit → EditKind
  | .updateProps .. => .updateProps
  | .updateStyle .. => .updateStyle
  | .updateText .. => .updateText
  | .replace .. => .replace
  | .delete .. => .delete
  | .insert .. => .insert
  | .addEvent .. => .addEvent
  | .removeEvent .. => .removeEvent
  | .updateAnimation .. => .updateAnimation

/-- The id that an edit addresses. -/
def target : Edit → String
  | .updateProps target _ | .updateStyle target _ | .updateText target _ | .replace target _
  | .delete target | .insert target _ _ | .addEvent target _ | .removeEvent target _
  | .updateAnimation target _ => target

open Json in
/-- The fields of an edit beside its kind. -/
def jsonFields : Edit → List (Option (String × Json))
  | .updateProps target props => [field "nodeId" (.str target), field "props" (.obj props)]
  | .updateStyle target style => [field "nodeId" (.str target), field "style" style.json]
  | .updateText target text => [field "nodeId" (.str target), field "text" (.str text)]
  | .replace target node => [field "nodeId" (.str target), field "node" node.json]
  | .delete target => [field "nodeId" (.str target)]
  | .insert target place node =>
    [field "parentId" (.str target), field "position" (.word place), field "node" node.json]
  | .addEvent target binding => [field "nodeId" (.str target), field "event" binding.json]
  | .removeEvent target index =>
    [field "nodeId" (.str target), field "eventIndex" (.natural index)]
  | .updateAnimation target motion => [field "nodeId" (.str target), field "motion" motion.json]

open Json in
/-- An edit as a value. -/
def json (edit : Edit) : Json :=
  .record (field "op" (.word edit.kind) :: edit.jsonFields)

open Record in
/-- An edit of a given kind from the literal of its other fields. -/
def readFields (kind : EditKind) (literal : Literal) : Option Edit :=
  match kind with
  | .updateProps => do
    let field ← fields? ["nodeId", "props"] literal
    return .updateProps (← required string (field "nodeId"))
      (← required anyMembers (field "props"))
  | .updateStyle => do
    let field ← fields? ["nodeId", "style"] literal
    return .updateStyle (← required string (field "nodeId"))
      (← required (Style.read true) (field "style"))
  | .updateText => do
    let field ← fields? ["nodeId", "text"] literal
    return .updateText (← required string (field "nodeId")) (← required string (field "text"))
  | .replace => do
    let field ← fields? ["nodeId", "node"] literal
    return .replace (← required string (field "nodeId"))
      (← required (Node.read true) (field "node"))
  | .delete => do
    let field ← fields? ["nodeId"] literal
    return .delete (← required string (field "nodeId"))
  | .insert => do
    let field ← fields? ["parentId", "position", "node"] literal
    return .insert (← required string (field "parentId"))
      (← required (word true) (field "position")) (← required (Node.read true) (field "node"))
  | .addEvent => do
    let field ← fields? ["nodeId", "event"] literal
    return .addEvent (← required string (field "nodeId"))
      (← required (Binding.read true) (field "event"))
  | .removeEvent => do
    let field ← fields? ["nodeId", "eventIndex"] literal
    return .removeEvent (← required string (field "nodeId"))
      (← required (naturalBelow (twoTo 64)) (field "eventIndex"))
  | .updateAnimation => do
    let field ← fields? ["nodeId", "motion"] literal
    return .updateAnimation (← required string (field "nodeId"))
      (← required (Motion.read true) (field "motion"))

/-- An edit from a literal. -/
def read (literal : Literal) : Option Edit :=
  (Record.tagged? "op" false literal).bind fun (kind, rest) => readFields kind rest

/-- An edit from a value. -/
def ofJson? (value : Json) : Option Edit :=
  read value.literal

/-- Two edits are the same when their values are. -/
def same (a b : Edit) : Bool :=
  a.json.same b.json

end Edit

end PageTree
