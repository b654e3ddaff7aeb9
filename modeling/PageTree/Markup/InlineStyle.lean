import PageTree.Markup.Forest

/-!
# Inline style

The style attribute of an element is a text of declarations between semicolons. It is read into a
list of declarations, changed there and written back. Of declarations of one property the last one
counts; setting a property removes the others, and an attribute without declarations is removed.

## Main definitions

* `InlineStyle.read`, `InlineStyle.write`, `InlineStyle.set`
* `Forest.styleProperty?`, `Forest.setStyleProperty`, `Forest.isRendered`
-/

namespace PageTree

namespace InlineStyle

/-- A declaration: the property in lower case and its value, without white space around either.
A part without a colon declares nothing. -/
def declaration? (part : List Char) : Option (String × String) :=
  (Text.cut? [':'] part).map fun (property, value) =>
    (String.ofList (Text.lower (Text.trimBlank property)), String.ofList (Text.trimBlank value))

/-- The declarations of a text. -/
def read (text : String) : List (String × String) :=
  (Text.split ';' text.toList).filterMap declaration?

/-- Declarations as a text. -/
def write (declarations : List (String × String)) : String :=
  ";".intercalate (declarations.map fun (property, value) => property ++ ":" ++ value)

/-- The value of a property: that of its last declaration. -/
def get? (property : String) (declarations : List (String × String)) : Option String :=
  declarations.reverse.lookup property

/-- Sets a property at the end, or removes it when the value is empty. -/
def set (property value : String) (declarations : List (String × String)) :
    List (String × String) :=
  (declarations.filter fun d => d.1 != property) ++
    if value.isEmpty then [] else [(property, value)]

end InlineStyle

namespace Forest

variable (f : Forest)

/-- The declarations in the style attribute. -/
def declarations (i : Nat) : List (String × String) :=
  InlineStyle.read ((f.attribute? i "style").getD "")

/-- The value of a property of the inline style. -/
def styleProperty? (i : Nat) (property : String) : Option String :=
  InlineStyle.get? property (f.declarations i)

/-- Sets a property of the inline style, or removes it when the value is empty. -/
def setStyleProperty (i : Nat) (property value : String) : Forest :=
  let declarations := InlineStyle.set property value (f.declarations i)
  if declarations.isEmpty then f.removeAttribute i "style"
  else f.setAttribute i "style" (InlineStyle.write declarations)

/-- The element itself is not displayed. -/
def isHidden (i : Nat) : Bool :=
  f.hasAttribute i "hidden" || f.styleProperty? i "display" == some "none"

/-- The element is in the document and nothing around it hides it. -/
def isRendered (i : Nat) : Bool :=
  f.isAttached i && !(f.lineage i).any f.isHidden

end Forest

end PageTree
