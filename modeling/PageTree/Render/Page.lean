import PageTree.Render.Client
import PageTree.Render.Node
import PageTree.Render.Sheet

/-!
# Pages as markup

A document becomes a whole page: a head with title, style sheets and the blocks that the page needs
of its own, and a body with the tree, then scripts. The script of a live page is there when a node
has bindings or a motion, and the initial state when there is one.

## Main definitions

* `Document.page`, `Document.html`
-/

namespace PageTree

/-- What a page says when its document does not. -/
structure PageDefaults where
  /-- The title. -/
  title : String := "Untitled Page"
  /-- The language. -/
  language : String := "en"
  deriving DecidableEq, Repr

/-- The id of the script with the initial state. -/
def stateScriptId : String := "ir-state-init"

/-- A value as a text that can stand in a script element: no closing tag occurs in it. -/
def scriptJson (value : Json) : String :=
  String.ofList (Text.replace ['<', '/'] ['<', '\\', '/'] value.chars)

namespace Document

/-- A property of the app that is not `null` as a page shows it, or a default. -/
def shownProp (document : Document) (key fallback : String) : String :=
  match document.app.props.lookup key with
  | none => fallback
  | some .null => fallback
  | some value => value.shown

/-- Some node has bindings or a motion. -/
def isLive (document : Document) : Bool :=
  document.app.preorder.any fun node => !node.events.isEmpty || node.motion.isSome

/-- Some node is a region for toasts. -/
def hasToastRegion (document : Document) : Bool :=
  document.app.preorder.any fun node => node.kind = Primitive.toastRegion.kind

/-- The presets that can play on the page, by first use. -/
def presets (document : Document) : List Preset := document.app.presets

/-- A style sheet that is loaded. -/
def sheetLink (address : String) : Markup :=
  .element "link" [.quoted "rel" "stylesheet", .quoted "href" address] []

/-- A block of style sheet rules. -/
def sheetElement (id rules : String) : Markup :=
  .element "style" [.quoted "id" id] [.verbatim ("\n" ++ rules ++ "\n")]

/-- A script that is loaded. -/
def scriptLink (address : String) : Markup :=
  .element "script" [.quoted "src" address] []

/-- The head of the page. -/
def headParts (theme : Theme) (defaults : PageDefaults) (document : Document) : List Markup :=
  [.element "meta" [.quoted "charset" "UTF-8"] [],
    .element "meta" [.quoted "name" "viewport",
      .quoted "content" "width=device-width, initial-scale=1.0"] [],
    .element "title" [] [.text (document.shownProp "title" defaults.title)]] ++
    (theme.links.styles ++ (document.links.getD {}).styles).map sheetLink ++
    (if document.presets.isEmpty then []
      else
        [sheetElement "ir-motion-presets"
          ("\n".intercalate (document.presets.map Preset.sheet))]) ++
    if document.hasToastRegion then [sheetElement "ir-toast-styles" toastSheet] else []

/-- The script with the initial state, unless that is empty. -/
def stateScript (document : Document) : List Markup :=
  match document.initialState? with
  | none => []
  | some [] => []
  | some state =>
    [.element "script" [.quoted "id" stateScriptId]
      [.verbatim ("window.__irState = " ++ scriptJson (.obj state) ++ ";")]]

/-- A module as a script. -/
def moduleScript (m : Module) : Markup :=
  .element "script" [.quoted "type" "module", .quoted "id" ("ir-module-" ++ m.id)]
    [.verbatim ("\n" ++ m.source ++ "\n")]

/-- The scripts of the page. -/
def scriptParts (theme : Theme) (document : Document) : List Markup :=
  (theme.links.scripts ++ (document.links.getD {}).scripts).map scriptLink ++
    document.stateScript ++
    (if document.isLive then
      [.element "script" [.quoted "id" "ir-runtime"] [.verbatim ("\n" ++ clientScript ++ "\n")]]
    else []) ++
    document.modules.map moduleScript

/-- The body of the page: the tree and the scripts, with a line for the scripts also when there
are none. -/
def bodyParts (theme : Theme) (document : Document) : List Markup :=
  let scripts := document.scriptParts theme
  [.lineBreak, document.app.markup theme] ++
    (if scripts.isEmpty then [.lineBreak] else Markup.lines scripts) ++ [.lineBreak]

/-- The whole page. -/
def page (theme : Theme) (defaults : PageDefaults) (document : Document) : List Markup :=
  [.verbatim "<!DOCTYPE html>", .lineBreak,
    .element "html" [.quoted "lang" (document.shownProp "lang" defaults.language)]
      [.lineBreak,
        .element "head" []
          (Markup.lines (document.headParts theme defaults) ++ [.lineBreak]),
        .lineBreak,
        .element "body" [] (document.bodyParts theme),
        .lineBreak]]

/-- The text of the whole page. -/
def html (theme : Theme) (defaults : PageDefaults) (document : Document) : String :=
  String.ofList (Markup.writeAll (document.page theme defaults))

end Document

end PageTree
