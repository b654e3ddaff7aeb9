import PageTree.Theme.Opening
import PageTree.Theme.Scale

/-!
# The themed theme

Elements with the classes of a component library, and tokens that name the variables of its style
sheet.
-/

namespace PageTree

namespace Themed

/-- Colors of text and lines. -/
def color : ColorRole → String
  | .primary => "var(--themePrimary)"
  | .secondary | .textSecondary => "var(--neutralSecondary)"
  | .success => "var(--greenText)"
  | .warning => "var(--yellowText)"
  | .danger => "var(--redText)"
  | .info => "var(--blueText)"
  | .neutral => "var(--neutralPrimary)"
  | .surface | .background => "var(--bodyBackground)"
  | .text => "var(--bodyText)"
  | .border => "var(--neutralLight)"
  | .muted => "var(--neutralLighter)"

/-- Colors behind content, where they differ. -/
def background : ColorRole → String
  | .secondary | .neutral => "var(--neutralLighter)"
  | .success => "var(--greenBackground)"
  | .warning => "var(--yellowBackground)"
  | .danger => "var(--redBackground)"
  | .info => "var(--blueBackground)"
  | .muted => "var(--neutralLighterAlt)"
  | role => color role

/-- The variables of the component library. -/
def scale : Scale where
  space
    | .none => "0"
    | .xs => "var(--spacingXS)"
    | .sm => "var(--spacingS1)"
    | .md => "var(--spacingM)"
    | .lg => "var(--spacingL1)"
    | .xl => "var(--spacingXL)"
    | .xxl => "var(--spacingXXL)"
    | .xxxl => "var(--spacingXXXL)"
  radius
    | .none => "0"
    | .sm => "var(--borderRadiusSmall)"
    | .md => "var(--borderRadiusMedium)"
    | .lg => "var(--borderRadiusLarge)"
    | .xl => "var(--borderRadiusXLarge)"
    | .full => "9999px"
  shadow
    | .none => "none"
    | .sm => "var(--shadow2)"
    | .md => "var(--shadow4)"
    | .lg => "var(--shadow8)"
    | .xl => "var(--shadow16)"
  color := color
  background := background
  borderColor := color .border
  metrics
    | .display => ⟨"2.5rem", "700", "1.2"⟩
    | .headline => ⟨"2rem", "600", "1.25"⟩
    | .title => ⟨"var(--fontSizeXL)", "600", "1.3"⟩
    | .subtitle => ⟨"var(--fontSizeLarge)", "500", "1.4"⟩
    | .body => ⟨"var(--fontSizeMedium)", "400", "1.5"⟩
    | .caption => ⟨"var(--fontSizeSmall)", "400", "1.4"⟩
    | .overline => ⟨"var(--fontSizeXSmall)", "600", "1.5"⟩
    | .code => ⟨"var(--fontSizeSmall)", "400", "1.5"⟩
  monospace := "var(--fontFamilyMonospace, monospace)"

/-- A tag with a class of the component library and further attributes. -/
def classedWith (tag className : String) (attributes : OrderedMap String) : Opening where
  tag := tag
  attributes := ("class", className) :: attributes

/-- A tag with a class of the component library. -/
def classed (tag className : String) : Opening := classedWith tag className []

/-- The classes of a button, which its variant decides. -/
def buttonClass (props : Props) : String :=
  match (props.lookup "variant").bind Json.string? with
  | some "primary" => "fluent-button fluent-button--primary"
  | some "subtle" => "fluent-button fluent-button--subtle"
  | some "icon" => "fluent-button fluent-button--icon"
  | _ => "fluent-button"

/-- The tag and attributes of a node. -/
def opening (kind : NodeKind) (props : Props) : Opening :=
  match kind.primitive? with
  | some .app => classed "div" "fluent-app"
  | some .page => classed "main" "fluent-page"
  | some .region => classed "section" "fluent-section"
  | some .box => classed "div" "fluent-box"
  | some .stack => classed "div" "fluent-stack"
  | some .grid =>
    classedWith "div" "fluent-grid" [("style", "grid-template-columns:" ++ props.gridTemplate)]
  | some .cluster => classedWith "div" "fluent-cluster" [("style", "display:flex;flex-wrap:wrap")]
  | some .spacer =>
    { tag := "div", attributes := [("aria-hidden", "true"), ("style", props.spacerStyle)] }
  | some .divider => classed "hr" "fluent-divider"
  | some .heading => { tag := props.headingTag }
  | some .text => { tag := "p" }
  | some .richText => classed "div" "fluent-richtext"
  | some .image =>
    { tag := "img", attributes := props.copy "src" "src" ++ props.copy "alt" "alt" }
  | some .icon => { tag := "span", attributes := props.copy "name" "data-icon" }
  | some .button =>
    classedWith "button" (buttonClass props)
      (props.flag "disabled" ++ props.copy "icon" "data-icon")
  | some .link =>
    { tag := "a", attributes := props.copy "href" "href" ++ props.copy "target" "target" }
  | some .form =>
    classedWith "form" "fluent-form" (props.copy "action" "action" ++ props.copy "method" "method")
  | some .input => classedWith "input" "fluent-textfield-input" props.inputAttributes
  | some .select =>
    classedWith "select" "fluent-dropdown-select"
      (props.copy "name" "name" ++ props.flag "disabled")
  | some .checkbox => classed "label" "fluent-checkbox"
  | some .card => classed "div" "fluent-card"
  | some .list => classed "ul" "fluent-list"
  | some .table => classed "table" "fluent-table"
  | some .badge => classed "span" "fluent-badge"
  | some .animate => classed "div" "fluent-animate"
  | some .disclosure => classed "details" "fluent-disclosure"
  | some .tabs => classed "div" "fluent-pivot"
  | some .dialog =>
    classedWith "dialog" "fluent-dialog"
      ([("role", "dialog"), ("aria-modal", "true")] ++ props.flag "open")
  | some .toastRegion => classedWith "div" "fluent-toast-region" [("aria-live", "polite")]
  | none => { tag := "div" }

end Themed

end PageTree
