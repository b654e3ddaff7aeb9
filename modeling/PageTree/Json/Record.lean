import PageTree.Json.Reader
import PageTree.Vocabulary

/-!
# Records in JSON

How the parts of a page are read from literals and written as values.

A record is an object with the named fields, or an array of the field values in their order, of
which the last may be missing. Fields that the record does not know are skipped; a known field
may not be given twice. An optional field may be `null`, which is the same as leaving it out.

A tagged record has its kind as the member under the tag, or as the first item of an array. Inside
a tagged record two spellings are accepted beside the usual ones: the kind may be given by its
number, and a word of a vocabulary that is spelled as an object may have an empty object as its
value.

## Main definitions

* `Record.fields?`, `Record.tagged?`: taking a literal apart
* `Record.required`, `Record.nullable`, `Record.withDefault`: reading a field
* `Json.record`: writing the fields that are present
-/

namespace PageTree

namespace Record

/-- The fields of a record with these names, as a function from names. -/
def fields? (names : List String) : Literal → Option (String → Option Literal)
  | .obj members =>
    if names.any fun name => 1 < (members.filter fun member => member.1 == name).length then none
    else some fun name => members.lookup name
  | .arr items =>
    if names.length < items.length then none
    else some fun name => (names.zip items).lookup name
  | _ => none

/-- The kind named by a tag: by its word or, inside a tagged record, by its number. -/
def kind? {κ : Type} [Vocabulary κ] (inTagged : Bool) : Literal → Option κ
  | .str word => Vocabulary.ofName? word
  | .num (.int number) =>
    if inTagged && 0 ≤ number then (Vocabulary.all : List κ)[number.toNat]? else none
  | _ => none

/-- The kind of a tagged record and the literal of its other fields. -/
def untag? {κ : Type} [Vocabulary κ] (tag : String) (inTagged : Bool) :
    Literal → Option (κ × Literal)
  | .obj members =>
    match members.filter fun member => member.1 == tag with
    | [(_, kind)] =>
      (kind? inTagged kind).map fun kind =>
        (kind, .obj (members.filter fun member => member.1 != tag))
    | _ => none
  | .arr (kind :: items) => (kind? inTagged kind).map fun kind => (kind, .arr items)
  | _ => none

/-- Reads a literal all of whose parts have values, also those that are then skipped. -/
def whole {α : Type} (read : Literal → Option α) (literal : Literal) : Option α :=
  if literal.value?.isSome then read literal else none

/-- The kind of a tagged record and the literal of its other fields. Its fields are known only
once its kind is, so all its parts need values. -/
def tagged? {κ : Type} [Vocabulary κ] (tag : String) (inTagged : Bool) (literal : Literal) :
    Option (κ × Literal) :=
  whole (untag? tag inTagged) literal

/-- A field that has to be there. -/
def required {α : Type} (read : Literal → Option α) (field : Option Literal) : Option α :=
  field.bind read

/-- A field that may be missing or `null`. -/
def nullable {α : Type} (read : Literal → Option α) : Option Literal → Option (Option α)
  | none => some none
  | some .null => some none
  | some literal => (read literal).map some

/-- A field that has a value when it is missing. -/
def withDefault {α : Type} (default : α) (read : Literal → Option α) : Option Literal → Option α
  | none => some default
  | some literal => read literal

/-- Any value. -/
def anyValue (literal : Literal) : Option Json :=
  literal.value?

/-- A text. -/
def string : Literal → Option String
  | .str value => some value
  | _ => none

/-- A truth value. -/
def boolean : Literal → Option Bool
  | .bool value => some value
  | _ => none

/-- A number, as a float. -/
def float : Literal → Option Binary64
  | .num value => some value.toBinary64
  | _ => none

/-- An integer from zero up to a bound, written as one. -/
def naturalBelow (bound : Nat) : Literal → Option Nat
  | .num (.int value) => if 0 ≤ value ∧ value < bound then some value.toNat else none
  | _ => none

/-- An array of things that can be read. -/
def listOf {α : Type} (read : Literal → Option α) : Literal → Option (List α)
  | .arr items => items.mapM read
  | _ => none

/-- An object with any members. -/
def anyMembers (literal : Literal) : Option (OrderedMap Json) :=
  match literal with
  | .obj _ => literal.value?.bind Json.members?
  | _ => none

/-- A word of a vocabulary, or an object with it as the only key and `null` as the value. -/
def word {α : Type} [Vocabulary α] (inTagged : Bool) : Literal → Option α
  | .str name => Vocabulary.ofName? name
  | .obj [(name, .null)] => Vocabulary.ofName? name
  | .obj [(name, .obj [])] => if inTagged then Vocabulary.ofName? name else none
  | _ => none

end Record

namespace Json

/-- The object of the fields that are present. -/
def record (fields : List (Option (String × Json))) : Json :=
  .obj (fields.filterMap id)

/-- A field that is always written. -/
def field (name : String) (value : Json) : Option (String × Json) :=
  some (name, value)

/-- A field that is written when there is something to write. -/
def fieldIf {α : Type} (name : String) (write : α → Json) (value : Option α) :
    Option (String × Json) :=
  value.map fun value => (name, write value)

/-- A list field that is written unless it is empty. -/
def fieldUnlessEmpty {α : Type} (name : String) (write : α → Json) :
    List α → Option (String × Json)
  | [] => none
  | items => some (name, .arr (items.map write))

/-- A natural as a value. -/
def natural (n : Nat) : Json := .num (.int n)

/-- A float as a value. -/
def float (x : Binary64) : Json := .num (.float x)

/-- A word of a vocabulary as a value. -/
def word {α : Type} [Vocabulary α] (a : α) : Json := .str (Vocabulary.name a)

end Json

end PageTree
