import PageTree.Json.Printer
import PageTree.Tree.Node

/-!
# Documents

A document is a tree under one root, the app, with a format version, links to style sheets and
scripts, and modules: scripts for what the tree cannot express.

## Main definitions

* `Document`, `Document.blank`
* `Document.read?`, `Document.json`: documents in JSON
-/

namespace PageTree

/-- The version that new documents are written in. -/
def formatVersion : String := "1.0"

/-- Addresses that a page loads beside those of its theme. -/
structure Links where
  /-- Style sheets. -/
  styles : List String := []
  /-- Scripts. -/
  scripts : List String := []
  deriving DecidableEq, Repr

/-- A script that goes into the page as it is. -/
structure Module where
  /-- The name of the module. -/
  id : String
  /-- Its text. -/
  source : String
  deriving DecidableEq, Repr

/-- A whole page. -/
structure Document where
  /-- The format version. -/
  version : String
  /-- The root of the tree. -/
  app : Node
  /-- Addresses to load. -/
  links : Option Links := none
  /-- Scripts to include. -/
  modules : List Module := []

namespace Links

open Json in
/-- Links as a value. -/
def json (links : Links) : Json :=
  .record [fieldUnlessEmpty "styles" .str links.styles,
    fieldUnlessEmpty "scripts" .str links.scripts]

open Record in
/-- Links from a literal. -/
def read (literal : Literal) : Option Links := do
  let field ← fields? ["styles", "scripts"] literal
  return {
    styles := ← withDefault [] (listOf string) (field "styles")
    scripts := ← withDefault [] (listOf string) (field "scripts") }

end Links

namespace Module

open Json in
/-- A module as a value. -/
def json (m : Module) : Json :=
  .record [field "id" (.str m.id), field "source" (.str m.source)]

open Record in
/-- A module from a literal. -/
def read (literal : Literal) : Option Module := do
  let field ← fields? ["id", "source"] literal
  return {
    id := ← required string (field "id")
    source := ← required string (field "source") }

end Module

namespace Document

/-- The document that a new page starts from: an app with a title and nothing inside. -/
def blank (title : String) : Document where
  version := formatVersion
  app := ({ id := "app", kind := Primitive.app.kind } : Node).withProp "title" (.str title)

/-- The app has nothing inside. -/
def isBlank (document : Document) : Bool :=
  document.app.children.isEmpty

/-- The title, if it is a text. -/
def title? (document : Document) : Option String :=
  document.app.textProp? "title"

/-- The language, if it is a text. -/
def language? (document : Document) : Option String :=
  document.app.textProp? "lang"

/-- The state that the page starts in, if it is an object. -/
def initialState? (document : Document) : Option (OrderedMap Json) :=
  (document.app.props.lookup "state").bind Json.members?

/-- The first node with this id. -/
def find? (id : String) (document : Document) : Option Node :=
  document.app.find? id

/-- The ids of all nodes in pre-order, repetitions included. -/
def ids (document : Document) : List String :=
  document.app.ids

open Json in
/-- A document as a value. -/
def json (document : Document) : Json :=
  .record [field "version" (.str document.version), field "app" document.app.json,
    fieldIf "assets" Links.json document.links,
    fieldUnlessEmpty "modules" Module.json document.modules]

/-- The compact text of a document. -/
def compact (document : Document) : String :=
  document.json.compact

/-- The pretty text of a document. -/
def pretty (document : Document) : String :=
  document.json.pretty

/-- Two documents are the same when their values are. -/
def same (a b : Document) : Bool :=
  a.json.same b.json

open Record in
/-- A document from a literal. -/
def read (literal : Literal) : Option Document := do
  let field ← fields? ["version", "app", "assets", "modules"] literal
  return {
    version := ← required string (field "version")
    app := ← required (Node.read false) (field "app")
    links := ← nullable Links.read (field "assets")
    modules := ← withDefault [] (listOf Module.read) (field "modules") }

/-- The document that a text holds, if it holds one. -/
def read? (text : String) : Option Document :=
  (Literal.read? text).bind read

end Document

end PageTree
