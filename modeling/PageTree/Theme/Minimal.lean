import PageTree.Theme.Opening
import PageTree.Theme.Scale

/-!
# The minimal theme

Plain elements with literal style sheet values and nothing to load.
-/

namespace PageTree

namespace Minimal

/-- Colors of text and lines. -/
def color : ColorRole → String
  | .primary => "#0078d4"
  | .secondary | .neutral | .textSecondary => "#6c757d"
  | .success => "#28a745"
  | .warning => "#ffc107"
  | .danger => "#dc3545"
  | .info => "#17a2b8"
  | .surface => "#ffffff"
  | .background => "#f5f5f5"
  | .text => "#212529"
  | .border => "#dee2e6"
  | .muted => "#f8f9fa"

/-- The values of the minimal theme. -/
def scale : Scale where
  space
    | .none => "0"
    | .xs => "0.25rem"
    | .sm => "0.5rem"
    | .md => "1rem"
    | .lg => "1.5rem"
    | .xl => "2rem"
    | .xxl => "3rem"
    | .xxxl => "4rem"
  radius
    | .none => "0"
    | .sm => "4px"
    | .md => "8px"
    | .lg => "12px"
    | .xl => "16px"
    | .full => "9999px"
  shadow
    | .none => "none"
    | .sm => "0 1px 2px rgba(0,0,0,0.05)"
    | .md => "0 4px 6px rgba(0,0,0,0.1)"
    | .lg => "0 10px 15px rgba(0,0,0,0.1)"
    | .xl => "0 20px 25px rgba(0,0,0,0.1)"
  color := color
  background := color
  borderColor := color .border
  metrics
    | .display => ⟨"2.5rem", "700", "1.2"⟩
    | .headline => ⟨"2rem", "600", "1.25"⟩
    | .title => ⟨"1.5rem", "600", "1.3"⟩
    | .subtitle => ⟨"1.25rem", "500", "1.4"⟩
    | .body => ⟨"1rem", "400", "1.5"⟩
    | .caption => ⟨"0.875rem", "400", "1.4"⟩
    | .overline => ⟨"0.75rem", "600", "1.5"⟩
    | .code => ⟨"0.875rem", "400", "1.5"⟩
  monospace := "monospace"

/-- The tag and attributes of a node. -/
def opening (kind : NodeKind) (props : Props) : Opening :=
  match kind.primitive? with
  | some .page => { tag := "main" }
  | some .region => { tag := "section" }
  | some .divider => { tag := "hr" }
  | some .heading => { tag := props.headingTag }
  | some .text => { tag := "p" }
  | some .image =>
    { tag := "img", attributes := props.copy "src" "src" ++ props.copy "alt" "alt" }
  | some .icon | some .badge => { tag := "span" }
  | some .button =>
    { tag := "button"
      attributes := props.flag "disabled" ++ props.copy "variant" "data-variant" }
  | some .link =>
    { tag := "a", attributes := props.copy "href" "href" ++ props.copy "target" "target" }
  | some .form =>
    { tag := "form", attributes := props.copy "action" "action" ++ props.copy "method" "method" }
  | some .input => { tag := "input", attributes := props.inputAttributes }
  | some .select =>
    { tag := "select", attributes := props.copy "name" "name" ++ props.flag "disabled" }
  | some .checkbox => { tag := "label" }
  | some .list => { tag := "ul" }
  | some .table => { tag := "table" }
  | some .disclosure => { tag := "details" }
  | some .dialog => { tag := "dialog", attributes := props.flag "open" }
  | some .stack =>
    { tag := "div", attributes := [("style", "display:flex;flex-direction:column")] }
  | some .grid =>
    { tag := "div"
      attributes := [("style", "display:grid;grid-template-columns:" ++ props.gridTemplate)] }
  | some .cluster => { tag := "div", attributes := [("style", "display:flex;flex-wrap:wrap")] }
  | some .spacer =>
    { tag := "div", attributes := [("style", props.spacerStyle), ("aria-hidden", "true")] }
  | _ => { tag := "div" }

end Minimal

end PageTree
