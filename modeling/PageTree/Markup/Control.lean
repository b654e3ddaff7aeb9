import PageTree.Markup.Forest

/-!
# Form controls

The value of a form control: what it was set to, else what its markup says.
-/

namespace PageTree.Forest

variable (f : Forest)

/-- The tags of form controls. -/
def controlTags : List String := ["input", "select", "textarea"]

/-- The element is a form control. -/
def isControl (i : Nat) : Bool := controlTags.contains (f.get i).tag

/-- The options directly inside an element. -/
def options (i : Nat) : List Nat :=
  (f.children i).filter fun child => (f.get child).tag == "option"

/-- The value of an option: its text unless it states one. -/
def optionValue (i : Nat) : String :=
  (f.attribute? i "value").getD (f.textContent i)

/-- The option of a choice that is selected: the first one marked so, else the first one. -/
def selectedOption? (i : Nat) : Option Nat :=
  ((f.options i).find? fun option => f.hasAttribute option "selected").or (f.options i).head?

/-- The value that the markup of a form control gives it. -/
def initialValue (i : Nat) : String :=
  let tag := (f.get i).tag
  if tag = "select" then ((f.selectedOption? i).map f.optionValue).getD ""
  else if tag = "textarea" then f.textContent i
  else (f.attribute? i "value").getD ""

/-- The value of a form control. -/
def formValue (i : Nat) : String :=
  (f.get i).value.getD (f.initialValue i)

/-- Sets the value of a form control. -/
def setValue (i : Nat) (value : String) : Forest :=
  f.modify i fun e => { e with value := some value }

end PageTree.Forest
