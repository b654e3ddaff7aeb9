import PageTree.Schema.Pages
import PageTree.Tool.Command
import PageTree.Tool.Settings
import PageTree.Turn.Round

/-!
# Running commands

A command reads files, prints lines, and either fails or may have one file written. Running is a
function of what the files hold; nothing is written before everything else is done, so a command
that fails leaves all files as they are.

## Main definitions

* `ToolFault`, `ToolFault.chain`
* `Invocation.run`: what a command prints, and the file it has written
* `Invocation.sources`: the files that it depends on
-/

namespace PageTree

/-- Why a command fails. -/
inductive ToolFault where
  /-- The settings file cannot be read. -/
  | settingsUnread (path : String)
  /-- The settings file holds no settings. -/
  | settingsInvalid (path : String)
  /-- A file cannot be read. -/
  | unread (path : String)
  /-- A file holds no JSON text. -/
  | notJson (path : String)
  /-- A file holds no document. -/
  | notDocument (path : String)
  /-- Edits cannot be applied, or what they make is refused. -/
  | batch (failure : Failure)
  /-- A document is refused. -/
  | refused (failure : Failure)
  /-- A file cannot be written. -/
  | unwritten (path : String)
  deriving DecidableEq, Repr

/-- A reason in the account of a failure. -/
inductive Reason where
  /-- Words of the tool. -/
  | words (text : String)
  /-- What is wrong with a text that should hold JSON. -/
  | malformedJson
  /-- Why a file cannot be read or written. -/
  | inaccessible
  deriving DecidableEq, Repr

namespace ToolFault

/-- The account of a failure, from the outermost reason to the innermost. -/
def chain : ToolFault → List Reason
  | .settingsUnread path => [.words ("failed to read config " ++ path), .inaccessible]
  | .settingsInvalid path => [.words ("invalid config " ++ path), .malformedJson]
  | .unread path => [.words ("failed to read " ++ path), .inaccessible]
  | .notJson path => [.words (path ++ " is not valid JSON"), .malformedJson]
  | .notDocument path => [.words (path ++ " is not a PageIR document"), .malformedJson]
  | .batch .editsNotListed => [.words "ops file must contain a JSON array"]
  | .batch failure =>
    [.words "refusing to write an invalid document", .words failure.message]
  | .refused failure => [.words failure.message]
  | .unwritten path => [.words ("failed to write " ++ path), .inaccessible]

end ToolFault

/-- The text of a file to be written. -/
structure Writing where
  path : String
  text : String
  deriving DecidableEq, Repr

/-- What a command comes to: what it prints, and its failure or the file that it has written. -/
structure Product where
  printed : String
  outcome : Except ToolFault (Option Writing)

namespace Product

/-- Nothing but a failure. -/
def ofFault (fault : ToolFault) : Product := ⟨"", .error fault⟩

/-- A text as a line of the output. -/
def line (text : String) : String := text ++ "\n"

/-- A text that goes to a file, or to the output when there is none. -/
def emit (out : Option String) (text : String) : Product :=
  match out with
  | some path => ⟨"", .ok (some ⟨path, text⟩)⟩
  | none => ⟨line text, .ok none⟩

/-- The product of what is made from something that may fail before anything is printed. -/
def ofExcept {α : Type} (made : Except ToolFault α) (product : α → Product) : Product :=
  match made with
  | .ok value => product value
  | .error fault => ofFault fault

end Product

/-- What the tool learns of the files. -/
structure Files where
  /-- The text under a path, if one can be read. -/
  read : String → Option String
  /-- There is a file of this name in the working directory, be it readable or not. -/
  isFile : String → Bool

namespace Files

variable (files : Files)

/-- The text of a file. -/
def text (path : String) : Except ToolFault String :=
  (files.read path).elim (.error (.unread path)) .ok

/-- The document in a file. -/
def document (path : String) : Except ToolFault Document := do
  let text ← files.text path
  (Document.read? text).elim (.error (.notDocument path)) .ok

/-- The value in a file. -/
def value (path : String) : Except ToolFault Json := do
  let text ← files.text path
  (Json.parse? text).elim (.error (.notJson path)) .ok

/-- The settings in a file. -/
def settingsIn (path : String) : Except ToolFault Settings :=
  match files.read path with
  | none => .error (.settingsUnread path)
  | some text =>
    ((Literal.read? text).bind Settings.read).elim (.error (.settingsInvalid path)) .ok

/-- The settings file of a project. -/
def settingsFile : String := "pageir.config.json"

/-- The settings: those in the file that is named, else those in the settings file of the project
if there is one. A settings file that is there has to be readable. -/
def settings (named : Option String) : Except ToolFault Settings :=
  match named with
  | some path => files.settingsIn path
  | none => if files.isFile settingsFile then files.settingsIn settingsFile else .ok {}

end Files

/-- The text of a schema. -/
def SchemaKind.text : SchemaKind → String
  | .edits => editSchema.json.pretty
  | .document => documentSchema.json.pretty

/-- The findings about a document as lines, and its refusal by a policy. -/
def Document.report (document : Document) (policy : Policy) : Product :=
  let findings := document.diagnostics
  { printed := String.join (findings.map fun finding => Product.line finding.line)
    outcome := ((policy.enforce findings).mapError ToolFault.refused).map fun _ => none }

/-- A batch of packed edits applied under a policy by the tool. -/
def Document.applyAs (document : Document) (edits : Json) (policy : Policy) :
    Except ToolFault Document :=
  (document.applyBatch edits policy).mapError .batch

/-- What a command comes to under settings. -/
def Command.run (files : Files) (settings : Settings) : Command → Product
  | .create title out => .emit out (Document.blank (title.getD settings.page.title)).pretty
  | .apply document edits out strict =>
    .ofExcept (do
      let document ← files.document document
      let edits ← files.value edits
      document.applyAs edits (settings.policy strict)) fun updated =>
        .emit out updated.pretty
  | .check document strict =>
    .ofExcept (files.document document) fun document =>
      document.report (settings.policy strict)
  | .compile document theme out =>
    .ofExcept (files.document document) fun document =>
      .emit out (document.html (settings.theme theme) settings.page)
  | .schema kind => ⟨Product.line kind.text, .ok none⟩
  | .client out => .emit (some out) clientScript

/-- The files that a command reads, if it gets that far. -/
def Command.sources : Command → List String
  | .apply document edits _ _ => [document, edits]
  | .check document _ | .compile document _ _ => [document]
  | .create .. | .schema _ | .client _ => []

/-- The files that an invocation reads, if it gets that far. -/
def Invocation.sources (invocation : Invocation) : List String :=
  invocation.settings.getD Files.settingsFile :: invocation.command.sources

/-- What an invocation comes to. -/
def Invocation.run (files : Files) (invocation : Invocation) : Product :=
  .ofExcept (files.settings invocation.settings) fun settings =>
    invocation.command.run files settings

end PageTree
