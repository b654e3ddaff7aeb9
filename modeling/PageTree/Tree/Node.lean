import PageTree.Style.Basic
import PageTree.Tree.Event
import PageTree.Tree.Kind
import PageTree.Tree.Motion

/-!
# Nodes

A page is a tree of nodes. A node has an id, a kind, free properties, a style, event bindings, a
motion, children and a text. Ids are meant to be unique but nothing here relies on it: a look-up
finds the first node in pre-order.

## Main definitions

* `Node.preorder`: the nodes of a tree, each before its children
* `Node.find?`: the first node with an id
* `Node.read`, `Node.json`: trees in JSON
-/

namespace PageTree

/-- A node with the tree below it. -/
structure Node where
  /-- The name by which edits and effects address the node. -/
  id : String
  /-- What the node is. -/
  kind : NodeKind
  /-- Free properties. -/
  props : List (String × Json) := []
  /-- The look. -/
  style : Style := {}
  /-- What events do. -/
  events : List Binding := []
  /-- How the node moves. -/
  motion : Option Motion := none
  /-- The nodes inside. -/
  children : List Node := []
  /-- The text. -/
  text : Option String := none

namespace Node

instance : Inhabited Node := ⟨{ id := "", kind := ⟨""⟩ }⟩

/-! ## Views -/

/-- The text of a property that holds one. -/
def textProp? (key : String) (node : Node) : Option String :=
  (node.props.lookup key).bind Json.string?

mutual

/-- The nodes of a tree, each before its children. -/
def preorder : Node → List Node
  | node@⟨_, _, _, _, _, _, children, _⟩ => node :: preorderAll children

/-- The nodes of several trees, one tree after the other. -/
def preorderAll : List Node → List Node
  | [] => []
  | node :: nodes => node.preorder ++ preorderAll nodes

end

/-- The ids of a tree in pre-order, repetitions included. -/
def ids (node : Node) : List String :=
  node.preorder.map (·.id)

/-- The first node with this id. -/
def find? (id : String) (node : Node) : Option Node :=
  node.preorder.find? (·.id == id)

/-! ## Building -/

/-- The node with a property set. -/
def withProp (key : String) (value : Json) (node : Node) : Node :=
  { node with props := OrderedMap.set key value node.props }

/-- The node with another binding. -/
def withBinding (binding : Binding) (node : Node) : Node :=
  { node with events := node.events ++ [binding] }

/-- The node with another child at its end. -/
def withChild (node child : Node) : Node :=
  { node with children := node.children ++ [child] }

/-! ## JSON -/

open Json in
/-- A node as a value, given its children as values; fields without content are left out. -/
def jsonWith (node : Node) (children : List Json) : Json :=
  .record [field "id" (.str node.id), field "type" (.str node.kind.name),
    if node.props.isEmpty then none else field "props" (.obj node.props),
    if node.style.isEmpty then none else field "style" node.style.json,
    fieldUnlessEmpty "events" Binding.json node.events, fieldIf "motion" Motion.json node.motion,
    fieldUnlessEmpty "children" (fun child => child) children, fieldIf "text" .str node.text]

mutual

/-- A tree as a value. -/
def json : Node → Json
  | node@⟨_, _, _, _, _, _, children, _⟩ => node.jsonWith (jsonAll children)

/-- Several trees as values. -/
def jsonAll : List Node → List Json
  | [] => []
  | node :: nodes => node.json :: jsonAll nodes

end

/-- Two trees are the same when their values are. -/
def same (a b : Node) : Bool :=
  a.json.same b.json

/-- The names of the fields, in order. -/
def fieldNames : List String :=
  ["id", "type", "props", "style", "events", "motion", "children", "text"]

open Record in
/-- The fields of a node other than its children. -/
def readOwn (inTagged : Bool) (children : List Node) (field : String → Option Literal) :
    Option Node := do
  return {
    id := ← required string (field "id")
    kind := ← required (fun literal => (string literal).map NodeKind.mk) (field "type")
    props := ← withDefault [] anyMembers (field "props")
    style := ← withDefault {} (Style.read inTagged) (field "style")
    events := ← withDefault [] (listOf (Binding.read inTagged)) (field "events")
    motion := ← nullable (Motion.read inTagged) (field "motion")
    children
    text := ← nullable string (field "text") }

mutual

/-- A tree from a literal. -/
def read (inTagged : Bool) : Literal → Option Node
  | .obj members =>
    match Record.fields? fieldNames (.obj members), readChildrenOf inTagged members with
    | some field, some children => readOwn inTagged children field
    | _, _ => none
  | .arr items =>
    match Record.fields? fieldNames (.arr items), readChildrenAt inTagged 6 items with
    | some field, some children => readOwn inTagged children field
    | _, _ => none
  | _ => none

/-- The children among the members of an object; none if there is no such member. -/
def readChildrenOf (inTagged : Bool) : List (String × Literal) → Option (List Node)
  | [] => some []
  | (name, literal) :: members =>
    if name = "children" then readList inTagged literal else readChildrenOf inTagged members

/-- The children in a place of an array; none if the array ends before it. -/
def readChildrenAt (inTagged : Bool) : Nat → List Literal → Option (List Node)
  | _, [] => some []
  | 0, literal :: _ => readList inTagged literal
  | place + 1, _ :: items => readChildrenAt inTagged place items

/-- Several trees from a literal that lists them. -/
def readList (inTagged : Bool) : Literal → Option (List Node)
  | .arr items => readAll inTagged items
  | _ => none

/-- Several trees from literals. -/
def readAll (inTagged : Bool) : List Literal → Option (List Node)
  | [] => some []
  | literal :: literals =>
    match read inTagged literal, readAll inTagged literals with
    | some node, some nodes => some (node :: nodes)
    | _, _ => none

end

end Node

end PageTree
