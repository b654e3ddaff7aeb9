import PageTree.Theme.Minimal
import PageTree.Theme.Themed
import PageTree.Tree.Document

/-!
# Themes

A theme presents nodes as elements and tokens as style sheet values. There are two: one for a
component library, loaded from an address, and a minimal one that loads nothing.

## Main definitions

* `Theme`, `ThemeKind.ofUserText`
-/

namespace PageTree

/-- Which theme. -/
inductive ThemeKind where
  | themed | minimal
  deriving DecidableEq, Repr

instance : Vocabulary ThemeKind where
  all := [.themed, .minimal]
  name
    | .themed => "themed"
    | .minimal => "minimal"
  mem_all a := by cases a <;> decide
  name_injective a b h := by cases a <;> cases b <;> first | rfl | exact absurd h (by decide)

/-- Where the component library is loaded from unless something else is said. -/
def defaultAssetBase : String := "/frameworks/fluent"

/-- A theme. -/
inductive Theme where
  /-- The component library, loaded from an address without slashes at its end. -/
  | themed (assetBase : String)
  /-- Plain elements. -/
  | minimal
  deriving DecidableEq, Repr

namespace ThemeKind

/-- The kind that a user names, in letters of either case, with white space around it ignored; or
what is wrong with the name. -/
def ofUserText (text : String) : Except String ThemeKind :=
  let name := String.ofList (Text.lower (Text.trimBlank text.toList))
  if name = "themed" ∨ name = "fluent" then .ok .themed
  else if name = "minimal" ∨ name = "none" then .ok .minimal
  else .error ("unknown adapter '" ++ name ++ "' (expected themed or minimal)")

/-- The theme of a kind; slashes at the end of the address are dropped. -/
def theme (assetBase : String) : ThemeKind → Theme
  | .themed => .themed (String.ofList (Text.trimEnd (· == '/') assetBase.toList))
  | .minimal => .minimal

end ThemeKind

namespace Theme

/-- The kind of a theme. -/
def kind : Theme → ThemeKind
  | .themed _ => .themed
  | .minimal => .minimal

/-- The values of tokens. -/
def scale : Theme → Scale
  | .themed _ => Themed.scale
  | .minimal => Minimal.scale

/-- The tag and attributes of a node. -/
def opening : Theme → NodeKind → Props → Opening
  | .themed _ => Themed.opening
  | .minimal => Minimal.opening

/-- The start of the class names of parts inside a node. -/
def partName : Theme → String
  | .themed _ => "fluent"
  | .minimal => "ir"

/-- What a page with this theme loads. -/
def links : Theme → Links
  | .themed base =>
    { styles := [base ++ "/fluent.min.css", base ++ "/theme-light.css"]
      scripts := [base ++ "/fluent.min.js"] }
  | .minimal => {}

/-- The theme of a page for which none is chosen. -/
def standard : Theme := ThemeKind.themed.theme defaultAssetBase

end Theme

end PageTree
