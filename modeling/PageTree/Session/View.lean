import PageTree.Session.Interaction

/-!
# Looking at a page

What can be seen of a session: texts, values and attributes of nodes, whether they are displayed,
the focus, and the toasts in the document. Of a node that has no element there is nothing to see.

## Main definitions

* `Session.text?`, `Session.value?`, `Session.attribute?`, `Session.isVisible`
* `Session.toastViews`
-/

namespace PageTree

/-- A toast in the document. -/
structure ToastView where
  /-- Its text. -/
  message : String
  /-- Its kind. -/
  variant : ToastVariant
  /-- It shows now. -/
  shown : Bool
  deriving DecidableEq, Repr

namespace Session

variable (s : Session)

/-- The text inside a node. -/
def text? (id : String) : Option String := (s.node? id).map s.forest.textContent

/-- The value of a node as a form control. -/
def value? (id : String) : Option String := (s.node? id).map s.forest.formValue

/-- An attribute of a node. -/
def attribute? (id name : String) : Option String :=
  (s.node? id).bind fun i => s.forest.attribute? i name

/-- A node has a class. -/
def hasClass (id name : String) : Bool := (s.node? id).any fun i => s.forest.hasClass i name

/-- A node is displayed. -/
def isVisible (id : String) : Bool := (s.node? id).any s.forest.isRendered

/-- The id of the node with the focus. -/
def focusedId? : Option String := s.focused.bind s.idOf?

/-- The toasts in the document, oldest first. -/
def toastViews : List ToastView :=
  (s.toasts.filter fun toast => s.forest.isAttached toast.1).map fun (i, variant) =>
    { message := s.forest.textContent i, variant, shown := s.forest.hasClass i shownToastClass }

end Session

end PageTree
