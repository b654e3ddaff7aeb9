import PageTree.Json.Printer

/-!
# Schemas

The schemas that a generator is given, in the vocabulary of JSON Schema: types, constants,
enumerations, properties, alternatives and references to named definitions.

## Main definitions

* `Schema`, `SchemaFile`
* `SchemaFile.json`: a schema as a value
-/

namespace PageTree

/-- A schema for values. -/
inductive Schema where
  /-- Any value. -/
  | anything
  /-- A text. -/
  | text
  /-- A text, with a remark on what it holds. -/
  | packed (description : String)
  /-- One text. -/
  | tag (word : String)
  /-- One of several texts. -/
  | words (choices : List String)
  /-- One value, a text, without its type. -/
  | constant (word : String)
  /-- A number. -/
  | number
  /-- A number between two others. -/
  | numberBetween (least greatest : Nat)
  /-- An array. -/
  | listOf (items : Schema)
  /-- An object. -/
  | anyObject
  /-- An object with these properties, of which some may be required; a closed one has no
  others. -/
  | object (properties : List (String × Schema)) (required : List String) (closed : Bool)
  /-- The definition with this name. -/
  | definition (name : String)
  /-- Exactly one of several. -/
  | oneOf (alternatives : List Schema)
  /-- At least one of several. -/
  | anyOf (alternatives : List Schema)
  deriving Inhabited

/-- A schema with the definitions that it refers to. -/
structure SchemaFile where
  /-- Members in front of the schema's own. -/
  heading : List (String × Json) := []
  /-- The schema. -/
  schema : Schema
  /-- The definitions. -/
  definitions : List (String × Schema)

namespace Schema

/-- The member that states a type. -/
def typeMember (name : String) : String × Json := ("type", .str name)

mutual

/-- The members of a schema's value. -/
def members : Schema → List (String × Json)
  | .anything => []
  | .text => [typeMember "string"]
  | .packed description =>
    [typeMember "string", ("description", .str ("JSON-encoded " ++ description))]
  | .tag word => [typeMember "string", ("const", .str word)]
  | .words choices => [typeMember "string", ("enum", .arr (choices.map .str))]
  | .constant word => [("const", .str word)]
  | .number => [typeMember "number"]
  | .numberBetween least greatest =>
    [typeMember "number", ("minimum", .num (.int least)), ("maximum", .num (.int greatest))]
  | .listOf items => [typeMember "array", ("items", .obj (members items))]
  | .anyObject => [typeMember "object"]
  | .object properties required closed =>
    [typeMember "object", ("properties", .obj (propertyMembers properties))] ++
      (if required.isEmpty then [] else [("required", .arr (required.map .str))]) ++
      if closed then [("additionalProperties", .bool false)] else []
  | .definition name => [("$ref", .str ("#/$defs/" ++ name))]
  | .oneOf alternatives => [("oneOf", .arr (alternativeValues alternatives))]
  | .anyOf alternatives => [("anyOf", .arr (alternativeValues alternatives))]

/-- Named schemas as members. -/
def propertyMembers : List (String × Schema) → List (String × Json)
  | [] => []
  | (name, schema) :: rest => (name, .obj (members schema)) :: propertyMembers rest

/-- Schemas as values. -/
def alternativeValues : List Schema → List Json
  | [] => []
  | schema :: rest => .obj (members schema) :: alternativeValues rest

end

theorem alternativeValues_eq (alternatives : List Schema) :
    alternativeValues alternatives = alternatives.map fun schema => .obj schema.members := by
  induction alternatives with
  | nil => rfl
  | cons schema rest ih => rw [alternativeValues, ih, List.map_cons]

/-- The members that the schema of an object is written with. -/
theorem mem_members_object {properties : List (String × Schema)} {required : List String}
    {closed : Bool} {m : String × Json} :
    m ∈ (object properties required closed).members ↔ m = typeMember "object" ∨
      m = ("properties", .obj (propertyMembers properties)) ∨
      (required ≠ [] ∧ m = ("required", .arr (required.map .str))) ∨
      (closed = true ∧ m = ("additionalProperties", .bool false)) := by
  cases required with
  | nil => cases closed <;> simp [members]
  | cons => cases closed <;> simp [members]

end Schema

/-- A schema with its definitions as a value. -/
def SchemaFile.json (file : SchemaFile) : Json :=
  .obj (file.heading ++ file.schema.members ++
    [("$defs", .obj (Schema.propertyMembers file.definitions))])

end PageTree
