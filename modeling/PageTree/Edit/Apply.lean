import PageTree.Edit.Basic

/-!
# Applying edits

Applying an edit always gives a document; an edit whose target is not there changes nothing.

* An update changes the first node with the id in pre-order.
* A replacement and an insertion into a parent act on every node with the id that has no such node
  above it, the root included.
* A deletion removes every node with the id other than the root.
* An insertion beside a sibling searches lists of children: it acts next to the first match of a
  list, and goes below the nodes of a list without a match.

## Main definitions

* `Edit.applyTo`: an edit applied to a tree
* `Document.apply`: edits applied to a document, in order
-/

namespace PageTree

namespace Node

mutual

/-- Changes the first node with the id in pre-order; nothing when there is none. -/
def updateFirst? (id : String) (change : Node → Node) : Node → Option Node
  | node@⟨_, _, _, _, _, _, children, _⟩ =>
    if node.id = id then some (change node)
    else (updateFirstAmong? id change children).map fun children => { node with children }

/-- Changes the first node with the id among several trees. -/
def updateFirstAmong? (id : String) (change : Node → Node) : List Node → Option (List Node)
  | [] => none
  | node :: nodes =>
    match updateFirst? id change node with
    | some node => some (node :: nodes)
    | none => (updateFirstAmong? id change nodes).map (node :: ·)

end

/-- Changes the first node with the id in pre-order. -/
def updateFirst (id : String) (change : Node → Node) (node : Node) : Node :=
  (node.updateFirst? id change).getD node

mutual

/-- Changes every node with the id that has no such node above it. -/
def updateOutermost (id : String) (change : Node → Node) : Node → Node
  | node@⟨_, _, _, _, _, _, children, _⟩ =>
    if node.id = id then change node
    else { node with children := updateOutermostAmong id change children }

/-- The same for several trees. -/
def updateOutermostAmong (id : String) (change : Node → Node) : List Node → List Node
  | [] => []
  | node :: nodes => updateOutermost id change node :: updateOutermostAmong id change nodes

end

mutual

/-- Removes every node with the id below the root. -/
def delete (id : String) : Node → Node
  | node@⟨_, _, _, _, _, _, children, _⟩ => { node with children := deleteAmong id children }

/-- Removes every node with the id from several trees, their roots included. -/
def deleteAmong (id : String) : List Node → List Node
  | [] => []
  | node :: nodes =>
    if node.id = id then deleteAmong id nodes else delete id node :: deleteAmong id nodes

end

/-- A list of siblings with `added` next to the first one with the id. -/
def insertNextTo (id : String) (side : Side) (added : Node) : List Node → List Node
  | [] => []
  | node :: nodes =>
    if node.id = id then
      match side with
      | .before => added :: node :: nodes
      | .after => node :: added :: nodes
    else node :: insertNextTo id side added nodes

mutual

/-- Inserts a node next to the first match in each list of children that has a match and does not
lie below another such list. -/
def insertBeside (id : String) (side : Side) (added : Node) : Node → Node
  | node@⟨_, _, _, _, _, _, children, _⟩ =>
    if children.any (·.id == id) then
      { node with children := insertNextTo id side added children }
    else { node with children := insertBesideAmong id side added children }

/-- The same below each of several nodes. -/
def insertBesideAmong (id : String) (side : Side) (added : Node) : List Node → List Node
  | [] => []
  | node :: nodes => insertBeside id side added node :: insertBesideAmong id side added nodes

end

/-- The node with another child at an end. -/
def insertInside (edge : Edge) (added node : Node) : Node :=
  match edge with
  | .first => { node with children := added :: node.children }
  | .last => { node with children := node.children ++ [added] }

end Node

namespace Edit

/-- The tree after an edit. -/
def applyTo (root : Node) : Edit → Node
  | .updateProps target props =>
    root.updateFirst target fun node =>
      { node with props := OrderedMap.overlay node.props props }
  | .updateStyle target style =>
    root.updateFirst target fun node => { node with style := node.style.overlay style }
  | .updateText target text => root.updateFirst target fun node => { node with text := some text }
  | .addEvent target binding => root.updateFirst target fun node => node.withBinding binding
  | .removeEvent target index =>
    root.updateFirst target fun node => { node with events := node.events.eraseIdx index }
  | .updateAnimation target motion =>
    root.updateFirst target fun node => { node with motion := some motion }
  | .replace target replacement => root.updateOutermost target fun _ => replacement
  | .delete target => root.delete target
  | .insert target place added =>
    match place.anchor with
    | .inside edge => root.updateOutermost target (Node.insertInside edge added)
    | .beside side => Node.insertBeside target side added root

end Edit

namespace Document

/-- The document after one edit. -/
def applyOne (document : Document) (edit : Edit) : Document :=
  { document with app := edit.applyTo document.app }

/-- The document after edits, in order. -/
def apply (document : Document) (edits : List Edit) : Document :=
  edits.foldl applyOne document

end Document

end PageTree
