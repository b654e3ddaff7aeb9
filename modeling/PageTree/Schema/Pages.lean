import PageTree.Edit.Basic
import PageTree.Schema.Basic

/-!
# The schemas of edits and documents

The schema of edits is closed everywhere, as generators under constraints need it: free objects
appear as texts that hold JSON. The schema of documents gives the shape of those objects.

## Main definitions

* `editSchema`, `documentSchema`
-/

namespace PageTree

namespace Schema

/-- One of the words of a vocabulary. -/
def wordOf (α : Type) [Vocabulary α] : Schema := .words (Vocabulary.names α)

/-- An edit of a kind with these fields, all of them required. -/
def edit (kind : EditKind) (fields : List (String × Schema)) : Schema :=
  .object (("op", .tag (Vocabulary.name kind)) :: fields) ("op" :: fields.map (·.1)) true

/-- A node in packed form. -/
def packedNode : Schema :=
  .object [
    ("id", .text),
    ("type", wordOf Primitive),
    ("props", .packed "props object"),
    ("style", .packed "StyleTokens object"),
    ("events", .packed "EventBinding[] array"),
    ("motion", .packed "MotionSpec object"),
    ("children", .listOf (.definition "Node")),
    ("text", .text)] ["id", "type"] true

/-- The kinds of edits in packed form. -/
def edits : List Schema := [
  edit .updateProps [("nodeId", .text), ("props", .packed "props object to merge")],
  edit .updateStyle [("nodeId", .text), ("style", .packed "StyleTokens object to merge")],
  edit .updateText [("nodeId", .text), ("text", .text)],
  edit .replace [("nodeId", .text), ("node", .definition "Node")],
  edit .delete [("nodeId", .text)],
  edit .insert [("parentId", .text), ("position", wordOf Place), ("node", .definition "Node")],
  edit .addEvent [("nodeId", .text), ("event", .packed "EventBinding object")],
  edit .removeEvent [("nodeId", .text), ("eventIndex", .number)],
  edit .updateAnimation [("nodeId", .text), ("motion", .packed "MotionSpec object")]]

/-- A style. -/
def style : Schema :=
  .object [
    ("space", .oneOf [wordOf SpaceStep,
      .object (EdgeSpacing.fieldNames.map fun name => (name, wordOf SpaceStep)) [] true]),
    ("radius", wordOf RadiusStep),
    ("border", .object [("width", .number), ("style", wordOf BorderLine),
      ("color", wordOf ColorRole)] [] true),
    ("shadow", wordOf ShadowStep),
    ("color", wordOf ColorRole),
    ("bg", wordOf ColorRole),
    ("typography", wordOf TextStyle),
    ("layout", wordOf Layout),
    ("align", wordOf Alignment),
    ("justify", wordOf Alignment),
    ("gap", wordOf SpaceStep),
    ("width", .text),
    ("height", .text),
    ("minWidth", .text),
    ("maxWidth", .text),
    ("minHeight", .text),
    ("maxHeight", .text),
    ("overflow", wordOf Overflow),
    ("opacity", .numberBetween 0 1),
    ("fontWeight", wordOf FontWeight),
    ("fontSize", .text),
    ("textAlign", wordOf TextAlign),
    ("cursor", .text),
    ("position", wordOf Positioning)] [] true

/-- A condition. -/
def condition : Schema :=
  .object [("key", .text), ("op", wordOf Relation), ("value", .anything)] ["key", "op"] false

/-- An effect of any kind. -/
def effect : Schema :=
  .object [
    ("type", wordOf EffectKind),
    ("target", .text),
    ("key", .text),
    ("value", .anything),
    ("url", .text),
    ("method", wordOf HttpMethod),
    ("body", .anything),
    ("resultKey", .text),
    ("event", .text),
    ("animation", .text),
    ("selector", .text),
    ("message", .text),
    ("variant", wordOf ToastVariant)] ["type"] false

/-- A binding. -/
def binding : Schema :=
  .object [("event", .text), ("when", .listOf condition), ("do", .listOf effect)]
    ["event", "do"] false

/-- A motion of either kind. -/
def motion : Schema :=
  .oneOf [
    .object [
      ("mode", .constant (Vocabulary.name MotionMode.preset)),
      ("preset", wordOf Preset),
      ("duration", .number),
      ("delay", .number),
      ("easing", .text),
      ("trigger", wordOf Trigger),
      ("stateKey", .text)] ["mode", "preset"] false,
    .object [
      ("mode", .constant (Vocabulary.name MotionMode.keyframes)),
      ("keyframes", .listOf .anyObject),
      ("duration", .number),
      ("delay", .number),
      ("easing", .text),
      ("iterations", .oneOf [.number, .constant "infinite"]),
      ("fill", wordOf FillMode),
      ("trigger", wordOf Trigger),
      ("stateKey", .text)] ["mode", "keyframes"] false]

/-- A node. -/
def node : Schema :=
  .object [
    ("id", .text),
    ("type", wordOf Primitive),
    ("props", .anyObject),
    ("style", .definition "StyleTokens"),
    ("events", .listOf (.definition "EventBinding")),
    ("motion", .definition "MotionSpec"),
    ("children", .listOf (.definition "Node")),
    ("text", .text)] ["id", "type"] true

/-- A document. -/
def document : Schema :=
  .object [
    ("version", .text),
    ("app", .definition "Node"),
    ("assets", .object [("styles", .listOf .text), ("scripts", .listOf .text)] [] true),
    ("modules", .listOf (.object [("id", .text), ("source", .text)] ["id", "source"] true))]
    ["version", "app"] false

end Schema

/-- The schema of an array of packed edits. -/
def editSchema : SchemaFile where
  schema := .listOf (.anyOf Schema.edits)
  definitions := [("Node", Schema.packedNode)]

/-- The schema of a document. -/
def documentSchema : SchemaFile where
  heading := [
    ("$schema", .str "https://json-schema.org/draft/2020-12/schema"),
    ("title", .str "CoreDocument")]
  schema := Schema.document
  definitions := [
    ("Node", Schema.node),
    ("StyleTokens", Schema.style),
    ("EventBinding", Schema.binding),
    ("MotionSpec", Schema.motion)]

end PageTree
