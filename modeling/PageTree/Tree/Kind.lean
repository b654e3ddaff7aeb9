import PageTree.Vocabulary

/-!
# Kinds of nodes

A node names its kind by a word. The words of the primitives are known; a node may carry any other
word, which is kept so that checking can report it.

## Main definitions

* `Primitive`: the known kinds
* `NodeKind`, `NodeKind.primitive?`
-/

namespace PageTree

/-- The kinds of nodes that themes know how to present. -/
inductive Primitive where
  | app | page | region | box | stack | grid | cluster | spacer | divider | heading | text
  | richText | image | icon | button | link | form | input | select | checkbox | card | list
  | table | badge | animate | disclosure | tabs | dialog | toastRegion
  deriving DecidableEq, Repr

instance : Vocabulary Primitive where
  all := [.app, .page, .region, .box, .stack, .grid, .cluster, .spacer, .divider, .heading,
    .text, .richText, .image, .icon, .button, .link, .form, .input, .select, .checkbox, .card,
    .list, .table, .badge, .animate, .disclosure, .tabs, .dialog, .toastRegion]
  name
    | .app => "App"
    | .page => "Page"
    | .region => "Section"
    | .box => "Box"
    | .stack => "Stack"
    | .grid => "Grid"
    | .cluster => "Cluster"
    | .spacer => "Spacer"
    | .divider => "Divider"
    | .heading => "Heading"
    | .text => "Text"
    | .richText => "RichText"
    | .image => "Image"
    | .icon => "Icon"
    | .button => "Button"
    | .link => "Link"
    | .form => "Form"
    | .input => "Input"
    | .select => "Select"
    | .checkbox => "Checkbox"
    | .card => "Card"
    | .list => "List"
    | .table => "Table"
    | .badge => "Badge"
    | .animate => "Animate"
    | .disclosure => "Disclosure"
    | .tabs => "Tabs"
    | .dialog => "Dialog"
    | .toastRegion => "ToastRegion"
  mem_all a := by cases a <;> decide
  name_injective a b h := by cases a <;> cases b <;> first | rfl | exact absurd h (by decide)

/-- The kind of a node, given by its word. -/
structure NodeKind where
  /-- The word, known or not. -/
  name : String
  deriving DecidableEq, Repr

namespace NodeKind

/-- The primitive that the word names. -/
def primitive? (kind : NodeKind) : Option Primitive :=
  Vocabulary.ofName? kind.name

/-- The word names a primitive. -/
def isKnown (kind : NodeKind) : Bool :=
  kind.primitive?.isSome

end NodeKind

/-- The kind of nodes of a primitive. -/
def Primitive.kind (primitive : Primitive) : NodeKind :=
  ⟨Vocabulary.name primitive⟩

@[simp] theorem Primitive.primitive?_kind (primitive : Primitive) :
    primitive.kind.primitive? = some primitive :=
  Vocabulary.ofName?_name primitive

end PageTree
