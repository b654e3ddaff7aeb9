import PageTree.Vocabulary

/-!
# Style tokens

The closed vocabularies in which a page states its look. A theme gives each token a concrete
value.
-/

namespace PageTree

/-- Steps of the scale for padding and gaps. -/
inductive SpaceStep where
  | none | xs | sm | md | lg | xl | xxl | xxxl
  deriving DecidableEq, Repr

instance : Vocabulary SpaceStep where
  all := [.none, .xs, .sm, .md, .lg, .xl, .xxl, .xxxl]
  name
    | .none => "none"
    | .xs => "xs"
    | .sm => "sm"
    | .md => "md"
    | .lg => "lg"
    | .xl => "xl"
    | .xxl => "2xl"
    | .xxxl => "3xl"
  mem_all a := by cases a <;> decide
  name_injective a b h := by cases a <;> cases b <;> first | rfl | exact absurd h (by decide)

/-- Steps of the scale for rounded corners. -/
inductive RadiusStep where
  | none | sm | md | lg | xl | full
  deriving DecidableEq, Repr

instance : Vocabulary RadiusStep where
  all := [.none, .sm, .md, .lg, .xl, .full]
  name
    | .none => "none"
    | .sm => "sm"
    | .md => "md"
    | .lg => "lg"
    | .xl => "xl"
    | .full => "full"
  mem_all a := by cases a <;> decide
  name_injective a b h := by cases a <;> cases b <;> first | rfl | exact absurd h (by decide)

/-- Steps of the scale for shadows. -/
inductive ShadowStep where
  | none | sm | md | lg | xl
  deriving DecidableEq, Repr

instance : Vocabulary ShadowStep where
  all := [.none, .sm, .md, .lg, .xl]
  name
    | .none => "none"
    | .sm => "sm"
    | .md => "md"
    | .lg => "lg"
    | .xl => "xl"
  mem_all a := by cases a <;> decide
  name_injective a b h := by cases a <;> cases b <;> first | rfl | exact absurd h (by decide)

/-- What a color is for. A theme gives each role a concrete color. -/
inductive ColorRole where
  | primary | secondary | success | warning | danger | info | neutral | surface | background
  | text | textSecondary | border | muted
  deriving DecidableEq, Repr

instance : Vocabulary ColorRole where
  all := [.primary, .secondary, .success, .warning, .danger, .info, .neutral, .surface,
    .background, .text, .textSecondary, .border, .muted]
  name
    | .primary => "primary"
    | .secondary => "secondary"
    | .success => "success"
    | .warning => "warning"
    | .danger => "danger"
    | .info => "info"
    | .neutral => "neutral"
    | .surface => "surface"
    | .background => "background"
    | .text => "text"
    | .textSecondary => "textSecondary"
    | .border => "border"
    | .muted => "muted"
  mem_all a := by cases a <;> decide
  name_injective a b h := by cases a <;> cases b <;> first | rfl | exact absurd h (by decide)

/-- Kinds of text, from the largest heading to code. -/
inductive TextStyle where
  | display | headline | title | subtitle | body | caption | overline | code
  deriving DecidableEq, Repr

instance : Vocabulary TextStyle where
  all := [.display, .headline, .title, .subtitle, .body, .caption, .overline, .code]
  name
    | .display => "display"
    | .headline => "headline"
    | .title => "title"
    | .subtitle => "subtitle"
    | .body => "body"
    | .caption => "caption"
    | .overline => "overline"
    | .code => "code"
  mem_all a := by cases a <;> decide
  name_injective a b h := by cases a <;> cases b <;> first | rfl | exact absurd h (by decide)

/-- How the content of a box is laid out. -/
inductive Layout where
  | block | inline | flex | grid | hidden
  deriving DecidableEq, Repr

instance : Vocabulary Layout where
  all := [.block, .inline, .flex, .grid, .hidden]
  name
    | .block => "block"
    | .inline => "inline"
    | .flex => "flex"
    | .grid => "grid"
    | .hidden => "hidden"
  mem_all a := by cases a <;> decide
  name_injective a b h := by cases a <;> cases b <;> first | rfl | exact absurd h (by decide)

/-- How items are placed along an axis. -/
inductive Alignment where
  | start | center | finish | stretch | between | around | evenly
  deriving DecidableEq, Repr

instance : Vocabulary Alignment where
  all := [.start, .center, .finish, .stretch, .between, .around, .evenly]
  name
    | .start => "start"
    | .center => "center"
    | .finish => "end"
    | .stretch => "stretch"
    | .between => "between"
    | .around => "around"
    | .evenly => "evenly"
  mem_all a := by cases a <;> decide
  name_injective a b h := by cases a <;> cases b <;> first | rfl | exact absurd h (by decide)

/-- How a border line is drawn. -/
inductive BorderLine where
  | solid | dashed | dotted | none
  deriving DecidableEq, Repr

instance : Vocabulary BorderLine where
  all := [.solid, .dashed, .dotted, .none]
  name
    | .solid => "solid"
    | .dashed => "dashed"
    | .dotted => "dotted"
    | .none => "none"
  mem_all a := by cases a <;> decide
  name_injective a b h := by cases a <;> cases b <;> first | rfl | exact absurd h (by decide)

/-- What happens to content that does not fit. -/
inductive Overflow where
  | auto | hidden | scroll | visible
  deriving DecidableEq, Repr

instance : Vocabulary Overflow where
  all := [.auto, .hidden, .scroll, .visible]
  name
    | .auto => "auto"
    | .hidden => "hidden"
    | .scroll => "scroll"
    | .visible => "visible"
  mem_all a := by cases a <;> decide
  name_injective a b h := by cases a <;> cases b <;> first | rfl | exact absurd h (by decide)

/-- How heavy letters are. -/
inductive FontWeight where
  | normal | medium | semibold | bold
  deriving DecidableEq, Repr

instance : Vocabulary FontWeight where
  all := [.normal, .medium, .semibold, .bold]
  name
    | .normal => "normal"
    | .medium => "medium"
    | .semibold => "semibold"
    | .bold => "bold"
  mem_all a := by cases a <;> decide
  name_injective a b h := by cases a <;> cases b <;> first | rfl | exact absurd h (by decide)

/-- How lines of text are aligned. -/
inductive TextAlign where
  | left | center | right | justify
  deriving DecidableEq, Repr

instance : Vocabulary TextAlign where
  all := [.left, .center, .right, .justify]
  name
    | .left => "left"
    | .center => "center"
    | .right => "right"
    | .justify => "justify"
  mem_all a := by cases a <;> decide
  name_injective a b h := by cases a <;> cases b <;> first | rfl | exact absurd h (by decide)

/-- How a box is positioned. -/
inductive Positioning where
  | static | relative | absolute | fixed | sticky
  deriving DecidableEq, Repr

instance : Vocabulary Positioning where
  all := [.static, .relative, .absolute, .fixed, .sticky]
  name
    | .static => "static"
    | .relative => "relative"
    | .absolute => "absolute"
    | .fixed => "fixed"
    | .sticky => "sticky"
  mem_all a := by cases a <;> decide
  name_injective a b h := by cases a <;> cases b <;> first | rfl | exact absurd h (by decide)

end PageTree
