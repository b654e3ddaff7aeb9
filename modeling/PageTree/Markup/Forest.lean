import PageTree.OrderedMap
import PageTree.Text.Classes
import PageTree.Markup.Tree

/-!
# Elements of a live page

A live page keeps its elements in a table. An element knows its parent, its attributes and its
content, in which other elements appear by their index. The element with index zero is the
document. Elements that are taken out of the document stay in the table, with no parent, and can
still be changed.

Elements are only ever appended to the table, below an element that is already there. So a parent
has a smaller index than its children, and no line of descent is longer than the table.

## Main definitions

* `Forest`, `Forest.preorder`, `Forest.lineage`
* classes, inline style and form values of elements
-/

namespace PageTree

/-- A piece of an element's content. -/
inductive Content where
  | element (index : Nat)
  | text (content : String)
  deriving DecidableEq, Repr

/-- An element. -/
structure Element where
  /-- The tag in lower case. -/
  tag : String
  /-- The attributes. -/
  attributes : OrderedMap String := []
  /-- The element that this one is in. -/
  parent : Option Nat := none
  /-- What is in the element. -/
  content : List Content := []
  /-- The value of a form control once it was set. -/
  value : Option String := none
  deriving DecidableEq, Repr, Inhabited

/-- The elements of a page. -/
structure Forest where
  /-- The table. -/
  elements : Array Element
  deriving DecidableEq, Repr

/-- The index of the document. -/
def rootIndex : Nat := 0

namespace Forest

/-- The forest with nothing but the document. -/
def empty : Forest := ⟨#[{ tag := "#document" }]⟩

instance : Inhabited Forest := ⟨empty⟩

variable (f : Forest)

/-- The number of elements, those outside of the document included. -/
def size : Nat := f.elements.size

/-- The element with an index. -/
def get (i : Nat) : Element := f.elements.getD i default

/-- The forest with one element changed. -/
def modify (i : Nat) (change : Element → Element) : Forest :=
  ⟨f.elements.modify i change⟩

/-- The value of an attribute. -/
def attribute? (i : Nat) (name : String) : Option String :=
  (f.get i).attributes.lookup name

/-- The attribute is present. -/
def hasAttribute (i : Nat) (name : String) : Bool :=
  (f.attribute? i name).isSome

/-- Sets an attribute. -/
def setAttribute (i : Nat) (name value : String) : Forest :=
  f.modify i fun e => { e with attributes := OrderedMap.set name value e.attributes }

/-- Removes an attribute. -/
def removeAttribute (i : Nat) (name : String) : Forest :=
  f.modify i fun e => { e with attributes := OrderedMap.erase name e.attributes }

/-! ## Structure -/

/-- Adds content at the end of an element. -/
def addContent (i : Nat) (piece : Content) : Forest :=
  f.modify i fun e => { e with content := e.content ++ [piece] }

/-- Adds an element at the end of its parent; its index is the old size. -/
def append (parent : Nat) (tag : String) (attributes : OrderedMap String) : Forest :=
  Forest.addContent ⟨f.elements.push { tag, attributes, parent := some parent }⟩ parent
    (.element f.size)

/-- The elements directly inside an element. -/
def children (i : Nat) : List Nat :=
  (f.get i).content.filterMap fun
    | .element child => some child
    | .text _ => none

/-- An element and those below it, each before its children; the first argument bounds the
depth. -/
def preorderFrom : Nat → Nat → List Nat
  | 0, _ => []
  | depth + 1, i => i :: (f.children i).flatMap (preorderFrom depth)

/-- The elements in the document in order, the document itself left out. -/
def preorder : List Nat :=
  (f.preorderFrom f.size rootIndex).tail

/-- An element and those around it from the inside out; the first argument bounds the number. -/
def lineageFrom : Nat → Nat → List Nat
  | 0, _ => []
  | bound + 1, i =>
    i :: match (f.get i).parent with
      | some parent => lineageFrom bound parent
      | none => []

/-- An element and those around it, from the inside out, the document left out. -/
def lineage (i : Nat) : List Nat :=
  (f.lineageFrom f.size i).filter (· != rootIndex)

/-- The element is in the document. -/
def isAttached (i : Nat) : Bool :=
  (f.lineageFrom f.size i).contains rootIndex

/-- The first element in the document that satisfies a test. -/
def findFirst? (test : Element → Bool) : Option Nat :=
  f.preorder.find? fun i => test (f.get i)

/-- The innermost element around an element, itself included, that satisfies a test. -/
def closest? (i : Nat) (test : Element → Bool) : Option Nat :=
  (f.lineage i).find? fun i => test (f.get i)

/-- Takes an element out of its parent. -/
def detach (i : Nat) : Forest :=
  match (f.get i).parent with
  | none => f
  | some parent =>
    (f.modify i fun e => { e with parent := none }).modify parent fun e =>
      { e with content := e.content.filter (· != .element i) }

/-! ## Text -/

/-- The text inside an element; the first argument bounds the depth. -/
def textFrom : Nat → Nat → List Char
  | 0, _ => []
  | depth + 1, i =>
    (f.get i).content.flatMap fun
      | .text content => content.toList
      | .element child => textFrom depth child

/-- The text inside an element. -/
def textContent (i : Nat) : String :=
  String.ofList (f.textFrom f.size i)

/-- Puts a text in the place of an element's content. The elements that were in it are taken
out. -/
def setText (i : Nat) (text : String) : Forest :=
  ((f.children i).foldl (fun g child => g.modify child fun e => { e with parent := none })
    f).modify i fun e => { e with content := if text.isEmpty then [] else [.text text] }

/-! ## Classes -/

/-- The classes of an element. -/
def classes (i : Nat) : List String :=
  words ((f.attribute? i "class").getD "")

/-- The element has the class. -/
def hasClass (i : Nat) (name : String) : Bool :=
  (f.classes i).contains name

/-- Adds a class unless the element has it. -/
def addClass (i : Nat) (name : String) : Forest :=
  if f.hasClass i name then f
  else
    let existing := Text.trimBlank ((f.attribute? i "class").getD "").toList
    f.setAttribute i "class"
      (if existing.isEmpty then name else String.ofList (existing ++ ' ' :: name.toList))

/-- Removes a class. -/
def removeClass (i : Nat) (name : String) : Forest :=
  if f.hasAttribute i "class" then
    f.setAttribute i "class" (" ".intercalate ((f.classes i).filter (· != name)))
  else f

end Forest

end PageTree
