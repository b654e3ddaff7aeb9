import PageTree.Edit.Basic
import PageTree.Json.Printer

/-!
# Packed edits

A generator whose output has to follow a closed schema cannot write free objects. It writes them
as texts that hold JSON: the properties, style, events and motion of a node, and the properties,
style, binding and motion of an edit. Unpacking puts values in the place of such texts; a text
that holds no value stays as it is. Packing is the way back.

## Main definitions

* `Json.unpackNode`, `Json.unpackEdit`
* `Json.packNode`, `Json.packEdit`, `Edit.packed`
-/

namespace PageTree

/-- The members of a node that may be packed. -/
def packedOfNode : List String := ["props", "style", "events", "motion"]

/-- The members of an edit that may be packed. -/
def packedOfEdit : List String := ["props", "style", "event", "motion"]

namespace Json

/-- The value that a text holds, or the value itself. -/
def unpack : Json → Json
  | .str text => (parse? text).getD (.str text)
  | value => value

/-- The text that holds a value; a text stays as it is. -/
def pack : Json → Json
  | .str text => .str text
  | value => .str value.compact

mutual

/-- A node with its packed members changed, all the way down. -/
def mapPacked (change : Json → Json) : Json → Json
  | .obj members => .obj (mapPackedMembers change members)
  | value => value

/-- The members of a node with the packed ones changed. -/
def mapPackedMembers (change : Json → Json) : List (String × Json) → List (String × Json)
  | [] => []
  | (key, value) :: members =>
    (key,
      if packedOfNode.contains key then change value
      else if key = "children" then mapPackedChildren change value
      else value) :: mapPackedMembers change members

/-- The children of a node with their packed members changed. -/
def mapPackedChildren (change : Json → Json) : Json → Json
  | .arr items => .arr (mapPackedAll change items)
  | value => value

/-- Several nodes with their packed members changed. -/
def mapPackedAll (change : Json → Json) : List Json → List Json
  | [] => []
  | item :: items => mapPacked change item :: mapPackedAll change items

end

/-- An edit with its packed members changed, those of a node that it carries included. -/
def mapPackedEdit (change : Json → Json) : Json → Json
  | .obj members =>
    .obj (members.map fun (key, value) =>
      (key,
        if packedOfEdit.contains key then change value
        else if key = "node" then mapPacked change value
        else value))
  | value => value

/-- A node with its packed members unpacked. -/
def unpackNode (node : Json) : Json := mapPacked unpack node

/-- An edit with its packed members unpacked. -/
def unpackEdit (edit : Json) : Json := mapPackedEdit unpack edit

/-- A node with its members packed. -/
def packNode (node : Json) : Json := mapPacked pack node

/-- An edit with its members packed. -/
def packEdit (edit : Json) : Json := mapPackedEdit pack edit

end Json

/-- An edit as a value in the packed form. -/
def Edit.packed (edit : Edit) : Json := edit.json.packEdit

end PageTree
