import PageTree.Diagnosis.Check
import PageTree.Render.Page

/-!
# Settings

What a project sets for all its pages: the theme and where it is loaded from, whether errors reject
a document, and what pages say by default. Everything may be left out.

## Main definitions

* `Settings`, `Settings.read`, `Settings.json`
* `Settings.policy`, `Settings.theme`
-/

namespace PageTree

/-- The settings of a project. -/
structure Settings where
  /-- The theme. -/
  themeKind : ThemeKind := .themed
  /-- Where the theme is loaded from. -/
  assetBase : String := defaultAssetBase
  /-- Errors reject a document. -/
  strict : Bool := false
  /-- What pages say by default. -/
  page : PageDefaults := {}
  deriving DecidableEq, Repr

namespace Settings

open Json in
/-- Settings as a value. -/
def json (settings : Settings) : Json :=
  .record [field "adapter" (.word settings.themeKind),
    field "themedAssetBase" (.str settings.assetBase), field "strict" (.bool settings.strict),
    field "defaultTitle" (.str settings.page.title),
    field "defaultLang" (.str settings.page.language)]

open Record in
/-- Settings from a literal. -/
def read (literal : Literal) : Option Settings := do
  let field ←
    fields? ["adapter", "themedAssetBase", "strict", "defaultTitle", "defaultLang"] literal
  let default : Settings := {}
  return {
    themeKind := ← withDefault default.themeKind (word false) (field "adapter")
    assetBase := ← withDefault default.assetBase string (field "themedAssetBase")
    strict := ← withDefault default.strict boolean (field "strict")
    page := {
      title := ← withDefault default.page.title string (field "defaultTitle")
      language := ← withDefault default.page.language string (field "defaultLang") } }

/-- What errors lead to, also when a command asks for strictness itself. -/
def policy (settings : Settings) (asked : Bool) : Policy :=
  if asked || settings.strict then .strict else .lenient

/-- The theme, which a command may choose itself. -/
def theme (settings : Settings) (chosen : Option ThemeKind) : Theme :=
  (chosen.getD settings.themeKind).theme settings.assetBase

end Settings

end PageTree
