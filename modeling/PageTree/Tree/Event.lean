import PageTree.Json.Record

/-!
# Events, conditions and effects

A binding says: on this event, if all these conditions on the state hold, run these effects in
order. Fields of effects may be left out; an effect without what it needs does nothing.

## Main definitions

* `Condition`, `Effect`, `Binding`
* `read` and `json` of each: the JSON form
-/

namespace PageTree

/-- How a condition relates a value of the state to its own. -/
inductive Relation where
  | equal | differs | greater | less | atLeast | atMost | truthy | falsy | contains
  deriving DecidableEq, Repr

instance : Vocabulary Relation where
  all := [.equal, .differs, .greater, .less, .atLeast, .atMost, .truthy, .falsy, .contains]
  name
    | .equal => "eq"
    | .differs => "neq"
    | .greater => "gt"
    | .less => "lt"
    | .atLeast => "gte"
    | .atMost => "lte"
    | .truthy => "truthy"
    | .falsy => "falsy"
    | .contains => "contains"
  mem_all a := by cases a <;> decide
  name_injective a b h := by cases a <;> cases b <;> first | rfl | exact absurd h (by decide)

/-- Methods of requests. -/
inductive HttpMethod where
  | get | post | put | delete
  deriving DecidableEq, Repr

instance : Vocabulary HttpMethod where
  all := [.get, .post, .put, .delete]
  name
    | .get => "GET"
    | .post => "POST"
    | .put => "PUT"
    | .delete => "DELETE"
  mem_all a := by cases a <;> decide
  name_injective a b h := by cases a <;> cases b <;> first | rfl | exact absurd h (by decide)

/-- Kinds of toasts. -/
inductive ToastVariant where
  | info | success | warning | danger
  deriving DecidableEq, Repr

instance : Vocabulary ToastVariant where
  all := [.info, .success, .warning, .danger]
  name
    | .info => "info"
    | .success => "success"
    | .warning => "warning"
    | .danger => "danger"
  mem_all a := by cases a <;> decide
  name_injective a b h := by cases a <;> cases b <;> first | rfl | exact absurd h (by decide)

/-- Kinds of effects. -/
inductive EffectKind where
  | toggle | setState | appendState | fetch | emit | animate | focus | toast
  deriving DecidableEq, Repr

instance : Vocabulary EffectKind where
  all := [.toggle, .setState, .appendState, .fetch, .emit, .animate, .focus, .toast]
  name
    | .toggle => "toggleTarget"
    | .setState => "setState"
    | .appendState => "appendStateArray"
    | .fetch => "fetchJson"
    | .emit => "emit"
    | .animate => "runAnimation"
    | .focus => "focus"
    | .toast => "toast"
  mem_all a := by cases a <;> decide
  name_injective a b h := by cases a <;> cases b <;> first | rfl | exact absurd h (by decide)

/-- A condition on the value of the state under a key. -/
structure Condition where
  /-- The key in the state, a path with dots. -/
  key : String
  /-- What is asked of the value. -/
  relation : Relation
  /-- What the value is compared with. -/
  value : Option Json := none

/-- What an event does. -/
inductive Effect where
  /-- Hides or shows a node. -/
  | toggle (target : Option String)
  /-- Writes a value into the state. -/
  | setState (key : Option String) (value : Json)
  /-- Appends a value to an array of the state. -/
  | appendState (key : Option String) (value : Json)
  /-- Requests a resource and writes the answer into the state. -/
  | fetch (url : Option String) (method : Option HttpMethod) (body : Option Json)
      (resultKey : Option String)
  /-- Sends a signal. -/
  | emit (event : Option String)
  /-- Plays a named animation on a node. -/
  | animate (target animation : Option String)
  /-- Moves the focus. -/
  | focus (target selector : Option String)
  /-- Shows a message for a while. -/
  | toast (message : Option String) (variant : Option ToastVariant)

/-- On an event, under conditions, run effects in order. -/
structure Binding where
  /-- The name of the event. -/
  event : String := ""
  /-- The conditions, all of which have to hold. -/
  conditions : List Condition := []
  /-- The effects. -/
  effects : List Effect := []

namespace Condition

open Json in
/-- A condition as a value. -/
def json (c : Condition) : Json :=
  .record [field "key" (.str c.key), field "op" (.word c.relation), fieldIf "value" id c.value]

open Record in
/-- A condition from a literal. -/
def read (inTagged : Bool) (literal : Literal) : Option Condition := do
  let field ← fields? ["key", "op", "value"] literal
  return {
    key := ← required string (field "key")
    relation := ← required (word inTagged) (field "op")
    value := ← nullable anyValue (field "value") }

end Condition

namespace Effect

/-- The kind of an effect. -/
def kind : Effect → EffectKind
  | .toggle .. => .toggle
  | .setState .. => .setState
  | .appendState .. => .appendState
  | .fetch .. => .fetch
  | .emit .. => .emit
  | .animate .. => .animate
  | .focus .. => .focus
  | .toast .. => .toast

/-- The node that an effect points at, for effects that do. -/
def target? : Effect → Option String
  | .toggle target | .animate target _ | .focus target _ => target
  | _ => none

open Json in
/-- The fields of an effect beside its kind. -/
def jsonFields : Effect → List (Option (String × Json))
  | .toggle target => [fieldIf "target" .str target]
  | .setState key value => [fieldIf "key" .str key, field "value" value]
  | .appendState key value => [fieldIf "key" .str key, field "value" value]
  | .fetch url method body resultKey =>
    [fieldIf "url" .str url, fieldIf "method" .word method, fieldIf "body" id body,
      fieldIf "resultKey" .str resultKey]
  | .emit event => [fieldIf "event" .str event]
  | .animate target animation =>
    [fieldIf "target" .str target, fieldIf "animation" .str animation]
  | .focus target selector => [fieldIf "target" .str target, fieldIf "selector" .str selector]
  | .toast message variant => [fieldIf "message" .str message, fieldIf "variant" .word variant]

open Json in
/-- An effect as a value. -/
def json (effect : Effect) : Json :=
  .record (field "type" (.word effect.kind) :: effect.jsonFields)

open Record in
/-- An effect of a given kind from the literal of its other fields. -/
def readFields (kind : EffectKind) (literal : Literal) : Option Effect :=
  match kind with
  | .toggle => do
    let field ← fields? ["target"] literal
    return .toggle (← nullable string (field "target"))
  | .setState => do
    let field ← fields? ["key", "value"] literal
    return .setState (← nullable string (field "key"))
      (← withDefault .null anyValue (field "value"))
  | .appendState => do
    let field ← fields? ["key", "value"] literal
    return .appendState (← nullable string (field "key"))
      (← withDefault .null anyValue (field "value"))
  | .fetch => do
    let field ← fields? ["url", "method", "body", "resultKey"] literal
    return .fetch (← nullable string (field "url")) (← nullable (word true) (field "method"))
      (← nullable anyValue (field "body")) (← nullable string (field "resultKey"))
  | .emit => do
    let field ← fields? ["event"] literal
    return .emit (← nullable string (field "event"))
  | .animate => do
    let field ← fields? ["target", "animation"] literal
    return .animate (← nullable string (field "target")) (← nullable string (field "animation"))
  | .focus => do
    let field ← fields? ["target", "selector"] literal
    return .focus (← nullable string (field "target")) (← nullable string (field "selector"))
  | .toast => do
    let field ← fields? ["message", "variant"] literal
    return .toast (← nullable string (field "message")) (← nullable (word true) (field "variant"))

/-- An effect from a literal. -/
def read (inTagged : Bool) (literal : Literal) : Option Effect :=
  (Record.tagged? "type" inTagged literal).bind fun (kind, rest) => readFields kind rest

end Effect

namespace Binding

open Json in
/-- A binding as a value. -/
def json (b : Binding) : Json :=
  .record [field "event" (.str b.event), fieldUnlessEmpty "when" Condition.json b.conditions,
    field "do" (.arr (b.effects.map Effect.json))]

open Record in
/-- A binding from a literal. -/
def read (inTagged : Bool) (literal : Literal) : Option Binding := do
  let field ← fields? ["event", "when", "do"] literal
  return {
    event := ← withDefault "" string (field "event")
    conditions := ← withDefault [] (listOf (Condition.read inTagged)) (field "when")
    effects := ← withDefault [] (listOf (Effect.read inTagged)) (field "do") }

end Binding

end PageTree
