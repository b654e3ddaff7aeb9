import PageTree.Json.Printer
import PageTree.Markup.Tree
import PageTree.Theme.Basic

/-!
# Nodes as markup

A node becomes one element. Its attributes are those of the theme, its style, its id, and what the
script of a live page reads: bindings, motion, the state keys that it shows or that show it. Inside
the element come the parts that its kind calls for, then its text where the kind shows one, then
its children. A text of rich text is markup of its own and goes in as it is.

## Main definitions

* `Node.markup`
-/

namespace PageTree

/-- The attribute with the id of a node. -/
def idAttribute : String := "data-ir-id"

/-- The attribute with the bindings of a node. -/
def eventsAttribute : String := "data-ir-events"

/-- The attribute with the motion of a node. -/
def motionAttribute : String := "data-ir-motion"

/-- The attribute with the state key that a node shows. -/
def bindAttribute : String := "data-ir-bind"

/-- The attribute with the state key that shows a node. -/
def showAttribute : String := "data-ir-show"

/-- The attribute of the element that toasts go into. -/
def toastRegionAttribute : String := "data-ir-toast-region"

namespace Node

/-! ## Attributes -/

/-- The style attribute: the theme's declarations for the kind, then those of the node's style. -/
def styleText (scale : Scale) (opening : Opening) (style : Style) : String :=
  let own := ";".intercalate
    ((style.declarations scale).map fun (property, value) => property ++ ":" ++ value)
  ";".intercalate
    ([(opening.attributes.lookup "style").getD "", own].filter (!·.isEmpty))

/-- The attributes that go after those of the theme, in order. A property is copied when it counts
as true. -/
def ownAttributes (node : Node) : OrderedMap String :=
  [(idAttribute, node.id)] ++
    (if node.events.isEmpty then []
      else [(eventsAttribute, (Json.arr (node.events.map Binding.json)).compact)]) ++
    (node.motion.map fun motion => (motionAttribute, motion.json.compact)).toList ++
    Props.copy "bind" bindAttribute node.props ++
    Props.copy "show" showAttribute node.props ++
    (if node.kind = Primitive.toastRegion.kind then [(toastRegionAttribute, "")] else []) ++
    Props.copy "ariaLabel" "aria-label" node.props ++
    Props.copy "ariaDescribedBy" "aria-describedby" node.props ++
    Props.copy "role" "role" node.props ++
    Props.copy "id" "id" node.props

/-- The attributes of a node's element. An attribute set twice keeps its place and takes the last
value. -/
def attributes (theme : Theme) (node : Node) : OrderedMap String :=
  let opening := theme.opening node.kind node.props
  let style := styleText theme.scale opening node.style
  OrderedMap.overlay opening.attributes
    ((if style.isEmpty then [] else [("style", style)]) ++ node.ownAttributes)

/-! ## Parts -/

/-- An element with quoted attributes and a text inside. -/
def part (tag : String) (attributes : List Attribute) (content : String) : Markup :=
  .element tag attributes [.text content]

/-- A member as a page shows it, or nothing. -/
def shownMember (key : String) (item : Json) : String :=
  ((item.member? key).map Json.shown).getD ""

/-- The box of a checkbox, and its text as a label. -/
def checkboxParts (name : String) (node : Node) : List Markup :=
  .element "input"
      ([.quoted "type" "checkbox", .quoted "class" (name ++ "-checkbox-input")] ++
        Attribute.bareIf (Props.holds "checked" node.props) "checked" ++
        ((Props.shownIf "name" node.props).map (Attribute.quoted "name")).toList) [] ::
    match node.text with
    | none => []
    | some text =>
      if text.isEmpty then []
      else [part "span" [.quoted "class" (name ++ "-checkbox-label")] text]

/-- An option of a choice: an object with value and label, or a value that is both. -/
def optionPart (item : Json) : Markup :=
  let (value, label) :=
    match item with
    | .obj _ => (shownMember "value" item, shownMember "label" item)
    | item => (item.shown, item.shown)
  part "option"
    (.quoted "value" value ::
      Attribute.bareIf (Json.truthy (item.member? "selected")) "selected") label

/-- The items of a property that holds an array. -/
def listProp? (key : String) (node : Node) : Option (List Json) :=
  (node.props.lookup key).bind Json.items?

/-- A row of a table. -/
def tableRow (row : Json) : Markup :=
  .element "tr" [] ((row.items?.getD []).map fun cell => part "td" [] cell.shown)

/-- The head of a table and its rows; without headers there are neither. -/
def tableParts (node : Node) : List Markup :=
  match node.listProp? "headers" with
  | none => []
  | some headers =>
    .element "thead" [] [.element "tr" [] (headers.map fun header => part "th" [] header.shown)] ::
      match node.listProp? "rows" with
      | none => []
      | some rows => [.element "tbody" [] (rows.map tableRow)]

/-- The button of a tab. -/
def tabButton (name : String) (tab : Json) : Markup :=
  let active :=
    if Json.truthy (tab.member? "active") then " " ++ name ++ "-pivot-tab--active" else ""
  part "button"
    [.quoted "class" (name ++ "-pivot-tab" ++ active), .quoted "role" "tab",
      .quoted "data-panel" (shownMember "id" tab)] (shownMember "label" tab)

/-- The strip of tabs. -/
def tabParts (name : String) (node : Node) : List Markup :=
  match node.listProp? "tabs" with
  | none => []
  | some tabs =>
    [.element "div" [.quoted "class" (name ++ "-pivot-tabs"), .quoted "role" "tablist"]
      (tabs.map (tabButton name))]

/-- The header of a dialog, and its children in a body of their own; without a title they stand
alone. -/
def dialogParts (name : String) (node : Node) (children : List Markup) : List Markup :=
  match Props.shownIf "title" node.props with
  | none => children
  | some title =>
    [.element "div" [.quoted "class" (name ++ "-dialog-header")]
        [part "h2" [.quoted "class" (name ++ "-dialog-title")] title],
      .element "div" [.quoted "class" (name ++ "-dialog-body")] children]

/-- What is inside a node's element, given the markup of its children. -/
def content (name : String) (node : Node) (children : List Markup) : List Markup :=
  match node.kind.primitive? with
  | some .checkbox => checkboxParts name node ++ children
  | some .select => ((node.listProp? "options").getD []).map optionPart ++ children
  | some .table => tableParts node ++ children
  | some .tabs => tabParts name node ++ children
  | some .disclosure =>
    ((Props.shownIf "summary" node.props).map (part "summary" [])).toList ++ children
  | some .dialog => dialogParts name node children
  | some .richText => (node.text.map .verbatim).toList ++ children
  | _ => (node.text.map .text).toList ++ children

/-- The element of a node, given the markup of its children; an element with a void tag has
nothing inside. -/
def element (theme : Theme) (node : Node) (children : List Markup) : Markup :=
  let tag := (theme.opening node.kind node.props).tag
  .element tag ((node.attributes theme).map Attribute.ofEntry)
    (if isVoid tag then [] else node.content theme.partName children)

mutual

/-- A tree as markup. -/
def markup (theme : Theme) : Node → Markup
  | node@⟨_, _, _, _, _, _, children, _⟩ => node.element theme (markupAll theme children)

/-- Several trees as markup. -/
def markupAll (theme : Theme) : List Node → List Markup
  | [] => []
  | node :: nodes => markup theme node :: markupAll theme nodes

end

end Node

end PageTree
