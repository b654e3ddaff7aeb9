import PageTree.Style.Token
import PageTree.Json.Record

/-!
# Styles

The look of a node as a record of optional tokens. A few fields hold a text that goes into the
style sheet as it is. Merging is an overlay: every field that the patch sets replaces that of the
base.

## Main definitions

* `Style`, `Style.overlay`
* `Style.read`, `Style.json`: styles in JSON
-/

namespace PageTree

/-- Padding that differs from edge to edge: for both horizontal or vertical edges, or for one. -/
structure EdgeSpacing where
  x : Option SpaceStep := none
  y : Option SpaceStep := none
  top : Option SpaceStep := none
  right : Option SpaceStep := none
  bottom : Option SpaceStep := none
  left : Option SpaceStep := none
  deriving DecidableEq, Repr

/-- Padding: one step for all edges, or edge by edge. -/
inductive Spacing where
  | uniform (step : SpaceStep)
  | byEdge (edges : EdgeSpacing)
  deriving DecidableEq, Repr

/-- A border; what is left out has a default. -/
structure Border where
  /-- Width in pixels. -/
  width : Option Binary64 := none
  /-- How the line is drawn. -/
  line : Option BorderLine := none
  /-- What the line's color is for. -/
  color : Option ColorRole := none
  deriving DecidableEq, Repr

/-- The look of a node. -/
structure Style where
  /-- Padding. -/
  space : Option Spacing := none
  /-- Rounding of the corners. -/
  radius : Option RadiusStep := none
  /-- The border. -/
  border : Option Border := none
  /-- The shadow. -/
  shadow : Option ShadowStep := none
  /-- The color of text. -/
  color : Option ColorRole := none
  /-- The color behind the content. -/
  background : Option ColorRole := none
  /-- The kind of text. -/
  typography : Option TextStyle := none
  /-- How the content is laid out. -/
  layout : Option Layout := none
  /-- Placement across the layout's axis. -/
  align : Option Alignment := none
  /-- Placement along the layout's axis. -/
  justify : Option Alignment := none
  /-- Space between items. -/
  gap : Option SpaceStep := none
  /-- Width, as written in a style sheet. -/
  width : Option String := none
  /-- Height, as written in a style sheet. -/
  height : Option String := none
  /-- Least width. -/
  minWidth : Option String := none
  /-- Greatest width. -/
  maxWidth : Option String := none
  /-- Least height. -/
  minHeight : Option String := none
  /-- Greatest height. -/
  maxHeight : Option String := none
  /-- What happens to content that does not fit. -/
  overflow : Option Overflow := none
  /-- How opaque the box is, from zero to one. -/
  opacity : Option Binary64 := none
  /-- How heavy letters are. -/
  fontWeight : Option FontWeight := none
  /-- Size of letters, as written in a style sheet. -/
  fontSize : Option String := none
  /-- How lines are aligned. -/
  textAlign : Option TextAlign := none
  /-- The pointer's shape, as written in a style sheet. -/
  cursor : Option String := none
  /-- How the box is positioned. -/
  position : Option Positioning := none
  deriving DecidableEq, Repr

namespace EdgeSpacing

/-- The names of the fields, in order. -/
def fieldNames : List String := ["x", "y", "top", "right", "bottom", "left"]

open Json in
/-- Edge by edge padding as a value. -/
def json (e : EdgeSpacing) : Json :=
  .record [fieldIf "x" .word e.x, fieldIf "y" .word e.y, fieldIf "top" .word e.top,
    fieldIf "right" .word e.right, fieldIf "bottom" .word e.bottom,
    fieldIf "left" .word e.left]

open Record in
/-- Edge by edge padding from a literal. -/
def read (literal : Literal) : Option EdgeSpacing := do
  let field ← fields? fieldNames literal
  let edge (name : String) : Option (Option SpaceStep) := nullable (word false) (field name)
  return {
    x := ← edge "x"
    y := ← edge "y"
    top := ← edge "top"
    right := ← edge "right"
    bottom := ← edge "bottom"
    left := ← edge "left" }

end EdgeSpacing

namespace Spacing

/-- Padding as a value. -/
def json : Spacing → Json
  | .uniform step => .word step
  | .byEdge edges => edges.json

open Record in
/-- Padding from a literal: one step if it names one, else edge by edge. -/
def read : Literal → Option Spacing :=
  whole fun literal =>
    match word false literal with
    | some step => some (.uniform step)
    | none => (EdgeSpacing.read literal).map .byEdge

end Spacing

namespace Border

/-- The names of the fields, in order. -/
def fieldNames : List String := ["width", "style", "color"]

open Json in
/-- A border as a value. -/
def json (b : Border) : Json :=
  .record [fieldIf "width" .float b.width, fieldIf "style" .word b.line,
    fieldIf "color" .word b.color]

open Record in
/-- A border from a literal. -/
def read (inTagged : Bool) (literal : Literal) : Option Border := do
  let field ← fields? fieldNames literal
  return {
    width := ← nullable float (field "width")
    line := ← nullable (word inTagged) (field "style")
    color := ← nullable (word inTagged) (field "color") }

end Border

namespace Style

instance : Inhabited Style := ⟨{}⟩

/-- No field is set. -/
def isEmpty (s : Style) : Bool := s = {}

/-- The style with every field that `patch` sets taken from it. -/
def overlay (base patch : Style) : Style where
  space := patch.space.or base.space
  radius := patch.radius.or base.radius
  border := patch.border.or base.border
  shadow := patch.shadow.or base.shadow
  color := patch.color.or base.color
  background := patch.background.or base.background
  typography := patch.typography.or base.typography
  layout := patch.layout.or base.layout
  align := patch.align.or base.align
  justify := patch.justify.or base.justify
  gap := patch.gap.or base.gap
  width := patch.width.or base.width
  height := patch.height.or base.height
  minWidth := patch.minWidth.or base.minWidth
  maxWidth := patch.maxWidth.or base.maxWidth
  minHeight := patch.minHeight.or base.minHeight
  maxHeight := patch.maxHeight.or base.maxHeight
  overflow := patch.overflow.or base.overflow
  opacity := patch.opacity.or base.opacity
  fontWeight := patch.fontWeight.or base.fontWeight
  fontSize := patch.fontSize.or base.fontSize
  textAlign := patch.textAlign.or base.textAlign
  cursor := patch.cursor.or base.cursor
  position := patch.position.or base.position

/-- The names of the fields, in order. -/
def fieldNames : List String := [
    "space", "radius", "border", "shadow", "color", "bg", "typography", "layout", "align",
    "justify", "gap", "width", "height", "minWidth", "maxWidth", "minHeight", "maxHeight",
    "overflow", "opacity", "fontWeight", "fontSize", "textAlign", "cursor", "position"]

open Json in
/-- A style as a value. -/
def json (s : Style) : Json :=
  .record [
    fieldIf "space" Spacing.json s.space,
    fieldIf "radius" .word s.radius,
    fieldIf "border" Border.json s.border,
    fieldIf "shadow" .word s.shadow,
    fieldIf "color" .word s.color,
    fieldIf "bg" .word s.background,
    fieldIf "typography" .word s.typography,
    fieldIf "layout" .word s.layout,
    fieldIf "align" .word s.align,
    fieldIf "justify" .word s.justify,
    fieldIf "gap" .word s.gap,
    fieldIf "width" .str s.width,
    fieldIf "height" .str s.height,
    fieldIf "minWidth" .str s.minWidth,
    fieldIf "maxWidth" .str s.maxWidth,
    fieldIf "minHeight" .str s.minHeight,
    fieldIf "maxHeight" .str s.maxHeight,
    fieldIf "overflow" .word s.overflow,
    fieldIf "opacity" .float s.opacity,
    fieldIf "fontWeight" .word s.fontWeight,
    fieldIf "fontSize" .str s.fontSize,
    fieldIf "textAlign" .word s.textAlign,
    fieldIf "cursor" .str s.cursor,
    fieldIf "position" .word s.position]

open Record in
/-- A style from a literal. -/
def read (inTagged : Bool) (literal : Literal) : Option Style := do
  let field ← fields? fieldNames literal
  return {
    space := ← nullable Spacing.read (field "space")
    radius := ← nullable (word inTagged) (field "radius")
    border := ← nullable (Border.read inTagged) (field "border")
    shadow := ← nullable (word inTagged) (field "shadow")
    color := ← nullable (word inTagged) (field "color")
    background := ← nullable (word inTagged) (field "bg")
    typography := ← nullable (word inTagged) (field "typography")
    layout := ← nullable (word inTagged) (field "layout")
    align := ← nullable (word inTagged) (field "align")
    justify := ← nullable (word inTagged) (field "justify")
    gap := ← nullable (word inTagged) (field "gap")
    width := ← nullable string (field "width")
    height := ← nullable string (field "height")
    minWidth := ← nullable string (field "minWidth")
    maxWidth := ← nullable string (field "maxWidth")
    minHeight := ← nullable string (field "minHeight")
    maxHeight := ← nullable string (field "maxHeight")
    overflow := ← nullable (word inTagged) (field "overflow")
    opacity := ← nullable float (field "opacity")
    fontWeight := ← nullable (word inTagged) (field "fontWeight")
    fontSize := ← nullable string (field "fontSize")
    textAlign := ← nullable (word inTagged) (field "textAlign")
    cursor := ← nullable string (field "cursor")
    position := ← nullable (word inTagged) (field "position") }

end Style

end PageTree
