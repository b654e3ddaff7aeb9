import PageTree.Theme.Basic
import PageTree.Tool.Arguments

/-!
# Commands

What the tool can be asked to do. A command is named by the first operand; the option for the
settings file may stand on either side of it, and what stands behind it counts. A path is never
empty.

## Main definitions

* `Command`, `Invocation`
* `Invocation.ofArguments?`
-/

namespace PageTree

/-- Which schema. -/
inductive SchemaKind where
  | edits | document
  deriving DecidableEq, Repr

instance : Vocabulary SchemaKind where
  all := [.edits, .document]
  name
    | .edits => "ops"
    | .document => "document"
  mem_all a := by cases a <;> decide
  name_injective a b h := by cases a <;> cases b <;> first | rfl | exact absurd h (by decide)

/-- What the tool does. -/
inductive Command where
  /-- Writes a blank document. -/
  | create (title out : Option String)
  /-- Applies edits to a document and writes the result. -/
  | apply (document edits : String) (out : Option String) (strict : Bool)
  /-- Reports findings about a document. -/
  | check (document : String) (strict : Bool)
  /-- Writes a document as a page. -/
  | compile (document : String) (theme : Option ThemeKind) (out : Option String)
  /-- Prints a schema. -/
  | schema (kind : SchemaKind)
  /-- Writes the script of live pages. -/
  | client (out : String)
  deriving DecidableEq, Repr

/-- A command and the settings file that it is to use. -/
structure Invocation where
  settings : Option String
  command : Command
  deriving DecidableEq, Repr

namespace Command

/-- The option for the settings file, which every command takes. -/
def settingsOption : String := "config"

/-- Where the script of live pages goes unless something else is said. -/
def clientFile : String := "pageir-runtime.js"

/-- The letter of the option for the output. -/
def outLetter : Char × String := ('o', "out")

/-- A path: any text but the empty one. -/
def path? (text : String) : Option String :=
  if text.isEmpty then none else some text

/-- An option that may be missing, read by `read` when it is there. -/
def optional {α : Type} (read : String → Option α) (value : Option String) : Option (Option α) :=
  match value with
  | none => some none
  | some value => (read value).map some

/-- The path in an option that may be missing. -/
def givenPath? (name : String) (given : Given) : Option (Option String) :=
  optional path? (given.values.lookup name)

/-- The only operand, as a path. -/
def onlyPath? (given : Given) : Option String :=
  match given.operands with
  | [operand] => path? operand
  | _ => none

/-- The commands by their names: what each takes, and how it comes from what was given. -/
def table : List (String × Form × (Given → Option Command)) := [
  ("new", { valued := ["title", "out"], letters := [outLetter] }, fun given => do
    guard given.operands.isEmpty
    return .create (given.values.lookup "title") (← givenPath? "out" given)),
  ("apply", { valued := ["ops", "out"], flags := ["strict"], letters := [outLetter] },
    fun given => do
      return .apply (← onlyPath? given) (← (given.values.lookup "ops").bind path?)
        (← givenPath? "out" given) (given.flags.contains "strict")),
  ("validate", { flags := ["strict"] }, fun given => do
    return .check (← onlyPath? given) (given.flags.contains "strict")),
  ("compile", { valued := ["adapter", "out"], letters := [outLetter] }, fun given => do
    return .compile (← onlyPath? given)
      (← optional (fun name => (ThemeKind.ofUserText name).toOption)
        (given.values.lookup "adapter"))
      (← givenPath? "out" given)),
  ("schema", {}, fun given =>
    match given.operands with
    | [kind] => (Vocabulary.ofName? kind).map Command.schema
    | _ => none),
  ("init-client", { valued := ["out"] }, fun given => do
    guard given.operands.isEmpty
    return .client ((← givenPath? "out" given).getD clientFile))]

end Command

namespace Invocation

open Command

/-- The invocation that arguments make, if they make one. -/
def ofArguments? (arguments : List String) : Option Invocation := do
  let outer : Form := { valued := [settingsOption] }
  let (before, name, after) ← outer.leading? arguments
  let given ← outer.read? before
  let (form, make) ← Command.table.lookup name
  let inner ← Form.read? { form with valued := settingsOption :: form.valued } after
  let outerSettings ← givenPath? settingsOption given
  let innerSettings ← givenPath? settingsOption inner
  return { settings := innerSettings.or outerSettings, command := ← make inner }

end Invocation

end PageTree
