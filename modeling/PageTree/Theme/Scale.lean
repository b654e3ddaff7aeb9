import PageTree.Json.Coercion
import PageTree.Style.Basic

/-!
# Style sheet declarations

A theme gives each token a concrete value by a scale. From a scale, a style becomes an ordered map
of declarations: a property that is set twice keeps its first place and its last value.

## Main definitions

* `Scale`
* `Style.declarations`
-/

namespace PageTree

/-- Size, weight and line height of a kind of text. -/
structure TextMetrics where
  size : String
  weight : String
  lineHeight : String
  deriving DecidableEq, Repr

/-- Concrete values for tokens. -/
structure Scale where
  /-- Padding and gaps. -/
  space : SpaceStep → String
  /-- Rounded corners. -/
  radius : RadiusStep → String
  /-- Shadows. -/
  shadow : ShadowStep → String
  /-- Colors of text and lines. -/
  color : ColorRole → String
  /-- Colors behind content. -/
  background : ColorRole → String
  /-- The color of a border that names none. -/
  borderColor : String
  /-- Kinds of text. -/
  metrics : TextStyle → TextMetrics
  /-- The font for code. -/
  monospace : String

/-- The weight of letters as a number. -/
def FontWeight.value : FontWeight → String
  | .normal => "400"
  | .medium => "500"
  | .semibold => "600"
  | .bold => "700"

/-- The placement of flexible items. -/
def Alignment.value : Alignment → String
  | .start => "flex-start"
  | .center => "center"
  | .finish => "flex-end"
  | .stretch => "stretch"
  | .between => "space-between"
  | .around => "space-around"
  | .evenly => "space-evenly"

/-- The value of the display property. -/
def Layout.value : Layout → String
  | .hidden => "none"
  | layout => Vocabulary.name layout

/-- A declaration of a property if there is a value. -/
def declareIf {α : Type} (property : String) (value : α → String) :
    Option α → List (String × String)
  | none => []
  | some a => [(property, value a)]

/-- A float in a style sheet. -/
def Binary64.sheetText (x : Binary64) : String := String.ofList x.plainText

namespace Spacing

/-- The padding that a spacing declares: both edges of an axis first, then single edges. -/
def declarations (space : SpaceStep → String) : Spacing → List (String × String)
  | .uniform step => [("padding", space step)]
  | .byEdge e =>
    declareIf "padding-left" space e.x ++ declareIf "padding-right" space e.x ++
      declareIf "padding-top" space e.y ++ declareIf "padding-bottom" space e.y ++
      declareIf "padding-top" space e.top ++ declareIf "padding-right" space e.right ++
      declareIf "padding-bottom" space e.bottom ++ declareIf "padding-left" space e.left

end Spacing

namespace Border

/-- A border in one value: one pixel wide, solid and of the scale's color unless it says
otherwise. -/
def value (scale : Scale) (b : Border) : String :=
  (b.width.getD .one).sheetText ++ "px " ++ (b.line.map Vocabulary.name).getD "solid" ++ " " ++
    (b.color.map scale.color).getD scale.borderColor

end Border

/-- What a kind of text declares. -/
def TextStyle.declarations (scale : Scale) (kind : TextStyle) : List (String × String) :=
  let metrics := scale.metrics kind
  [("font-size", metrics.size), ("font-weight", metrics.weight),
    ("line-height", metrics.lineHeight)] ++
    match kind with
    | .code => [("font-family", scale.monospace)]
    | .overline => [("text-transform", "uppercase")]
    | _ => []

namespace Style

/-- The declarations of a style, in order, repetitions included. -/
def declarationList (scale : Scale) (s : Style) : List (String × String) :=
  (s.space.map (Spacing.declarations scale.space)).getD [] ++
    declareIf "border-radius" scale.radius s.radius ++
    declareIf "border" (Border.value scale) s.border ++
    declareIf "box-shadow" scale.shadow s.shadow ++
    declareIf "color" scale.color s.color ++
    declareIf "background-color" scale.background s.background ++
    (s.typography.map (TextStyle.declarations scale)).getD [] ++
    declareIf "display" Layout.value s.layout ++
    declareIf "align-items" Alignment.value s.align ++
    declareIf "justify-content" Alignment.value s.justify ++
    declareIf "gap" scale.space s.gap ++
    declareIf "width" id s.width ++
    declareIf "height" id s.height ++
    declareIf "min-width" id s.minWidth ++
    declareIf "max-width" id s.maxWidth ++
    declareIf "min-height" id s.minHeight ++
    declareIf "max-height" id s.maxHeight ++
    declareIf "overflow" Vocabulary.name s.overflow ++
    declareIf "opacity" Binary64.sheetText s.opacity ++
    declareIf "font-weight" FontWeight.value s.fontWeight ++
    declareIf "font-size" id s.fontSize ++
    declareIf "text-align" Vocabulary.name s.textAlign ++
    declareIf "cursor" id s.cursor ++
    declareIf "position" Vocabulary.name s.position

/-- The declarations of a style. -/
def declarations (scale : Scale) (s : Style) : OrderedMap String :=
  .ofEntries (s.declarationList scale)

end Style

end PageTree
