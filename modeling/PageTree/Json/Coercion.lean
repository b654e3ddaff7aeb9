import PageTree.Json.Basic
import PageTree.Number.Form
import PageTree.Text.Classes

/-!
# Values on a page

How a page shows a value as a text, takes it as a condition, as a number, and when two values are
equal. A missing value is `none`. These are the rules of a browser, so that a page behaves the same
wherever it runs.

## Main definitions

* `Json.shown`, `Json.truthy`, `Json.toNumber`, `Json.strictlyEqual`
-/

namespace PageTree

/-- A number as a page shows it: whole numbers below `10 ^ 21` with all their digits, others by
their shortest decimal. -/
def Number.shown : Number → List Char
  | .int value =>
    if value < 0 then '-' :: Nat.toDigits 10 value.natAbs else Nat.toDigits 10 value.natAbs
  | .float value =>
    if value.isWhole && value.magnitude < (Binary64.powerOfTen 21).magnitude then value.wholeText
    else value.plainText

namespace Json

mutual

/-- The characters of a value as a page shows it. -/
def shownChars : Json → List Char
  | .null => "null".toList
  | .bool true => "true".toList
  | .bool false => "false".toList
  | .num value => value.shown
  | .str value => value.toList
  | .arr items => shownItems items
  | .obj _ => "[object Object]".toList

/-- Items with commas between them; `null` is shown as nothing. -/
def shownItems : List Json → List Char
  | [] => []
  | [item] => if item.isNull then [] else shownChars item
  | item :: items => (if item.isNull then [] else shownChars item) ++ ',' :: shownItems items

end

/-- A value as a page shows it. -/
def shown (value : Json) : String :=
  String.ofList value.shownChars

/-- A value that may be missing as a page shows it. -/
def shown? : Option Json → String
  | none => "undefined"
  | some value => value.shown

/-- A value counts as true: it is there and is not `null`, false, zero or the empty text. -/
def truthy : Option Json → Bool
  | none => false
  | some .null => false
  | some (.bool value) => value
  | some (.num value) => !value.toBinary64.isZero && !value.toBinary64.isNaN
  | some (.str value) => !value.isEmpty
  | some (.arr _) => true
  | some (.obj _) => true

/-- The number that a text stands for, with white space around it ignored; an empty text is
zero. -/
def numberOfText (text : List Char) : Binary64 :=
  match Text.trimBlank text with
  | [] => .zero
  | trimmed => (Binary64.ofUserText trimmed).getD .nan

/-- The number that a value stands for. -/
def toNumber : Option Json → Binary64
  | none => .nan
  | some .null => .zero
  | some (.bool value) => if value then .one else .zero
  | some (.num value) => value.toBinary64
  | some (.str value) => numberOfText value.toList
  | some (.arr items) => numberOfText (shownItems items)
  | some (.obj _) => .nan

/-- Equality without conversion. Containers are told apart by their identity, so none equals
another. -/
def strictlyEqual : Option Json → Option Json → Bool
  | none, none => true
  | some .null, some .null => true
  | some (.bool a), some (.bool b) => a == b
  | some (.num a), some (.num b) => a.toBinary64.equal b.toBinary64
  | some (.str a), some (.str b) => a == b
  | _, _ => false

end Json

end PageTree
