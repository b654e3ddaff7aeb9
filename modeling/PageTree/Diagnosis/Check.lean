import PageTree.Diagnosis.Failure
import PageTree.Diagnosis.Script
import PageTree.Tree.Document

/-!
# Checking documents

Static checks. Findings about nodes and bindings come first, in pre-order; then effects whose
target does not exist, in pre-order; then modules. Checking never fails, and a policy decides
whether errors reject the document.

## Main definitions

* `Document.diagnostics`: all findings
* `Policy.enforce`: rejecting a document with errors
-/

namespace PageTree

/-! ## Places -/

/-- The path of an item of a list. -/
def itemPath (list : String) (index : Nat) : String :=
  list ++ "[" ++ toString index ++ "]"

mutual

/-- The nodes of a tree in pre-order with their paths, given the path of the root. -/
def Node.located (path : String) : Node → List (Node × String)
  | node@⟨_, _, _, _, _, _, children, _⟩ =>
    (node, path) :: locatedFrom (path ++ ".children") 0 children

/-- The nodes of several trees, the items of a list from an index on. -/
def locatedFrom (list : String) (index : Nat) : List Node → List (Node × String)
  | [] => []
  | node :: nodes =>
    node.located (itemPath list index) ++ locatedFrom list (index + 1) nodes

end

/-! ## Findings -/

/-- An error at a place. -/
def errorAt (path message : String) : Diagnostic := ⟨.error, path, message⟩

/-- A warning at a place. -/
def warningAt (path message : String) : Diagnostic := ⟨.warning, path, message⟩

/-- A finding that is made when a condition holds. -/
def findingIf (condition : Bool) (finding : Diagnostic) : List Diagnostic :=
  if condition then [finding] else []

/-- Findings about a binding by itself. -/
def bindingFindings (path : String) (binding : Binding) : List Diagnostic :=
  findingIf binding.event.isEmpty (errorAt path "EventBinding missing \"event\" field") ++
    findingIf binding.effects.isEmpty (warningAt path "EventBinding has empty \"do\" array")

/-- Findings about a node by itself, given the ids before it. A repeated id is reported where it
occurs for the second time. -/
def nodeFindings (earlier : List String) (node : Node) (path : String) : List Diagnostic :=
  findingIf (earlier.count node.id = 1)
      (errorAt path ("Duplicate node ID: \"" ++ node.id ++ "\"")) ++
    findingIf (!node.kind.isKnown)
      (errorAt (path ++ ".type") ("Unknown NodeType: \"" ++ node.kind.name ++ "\"")) ++
    node.events.zipIdx.flatMap fun (binding, index) =>
      bindingFindings (itemPath (path ++ ".events") index) binding

/-- Findings about nodes by themselves, given the ids before them. -/
def treeFindings (earlier : List String) : List (Node × String) → List Diagnostic
  | [] => []
  | (node, path) :: rest =>
    nodeFindings earlier node path ++ treeFindings (node.id :: earlier) rest

/-- The finding about the target of an effect, given all ids. -/
def targetFindings (ids : List String) (path : String) (effect : Effect) : List Diagnostic :=
  match effect.target? with
  | none => []
  | some target =>
    findingIf (!target.isEmpty && !ids.contains target)
      (errorAt (path ++ ".target") ("Target ID \"" ++ target ++ "\" does not exist in document"))

/-- Findings about the targets of a node's effects, given all ids. -/
def nodeTargetFindings (ids : List String) (node : Node) (path : String) : List Diagnostic :=
  node.events.zipIdx.flatMap fun (binding, index) =>
    binding.effects.zipIdx.flatMap fun (effect, position) =>
      targetFindings ids
        (itemPath (itemPath (path ++ ".events") index ++ ".do") position) effect

/-- Findings about a module, given the module ids before it. -/
def moduleFindings (earlier : List String) (m : Module) (path : String) : List Diagnostic :=
  findingIf (earlier.contains m.id)
      (errorAt (path ++ ".id") ("Duplicate module ID: \"" ++ m.id ++ "\"")) ++
    ScriptPattern.all.flatMap fun pattern =>
      findingIf (pattern.occursIn m.source)
        (warningAt (path ++ ".source")
          ("Module \"" ++ m.id ++ "\" contains potentially dangerous pattern: " ++
            pattern.shown))

/-- Findings about modules from an index on, given the module ids before them. -/
def modulesFindings (earlier : List String) (index : Nat) : List Module → List Diagnostic
  | [] => []
  | m :: rest =>
    moduleFindings earlier m (itemPath "modules" index) ++
      modulesFindings (m.id :: earlier) (index + 1) rest

/-- All findings about a document. -/
def Document.diagnostics (document : Document) : List Diagnostic :=
  let nodes := document.app.located "app"
  treeFindings [] nodes ++
    (nodes.flatMap fun (node, path) => nodeTargetFindings document.ids node path) ++
    modulesFindings [] 0 document.modules

/-! ## Policies -/

/-- What errors lead to. -/
inductive Policy where
  /-- They are reported. -/
  | lenient
  /-- They reject the document. -/
  | strict
  deriving DecidableEq, Repr

/-- There are errors among the findings. -/
def hasErrors (findings : List Diagnostic) : Bool :=
  findings.any Diagnostic.isError

/-- Accepts the findings about a document or rejects it. -/
def Policy.enforce (policy : Policy) (findings : List Diagnostic) : Except Failure Unit :=
  match policy, findings.filter Diagnostic.isError with
  | .strict, first :: errors => .error (.rejected (errors.length + 1) first)
  | _, _ => .ok ()

end PageTree
