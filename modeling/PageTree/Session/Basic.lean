import PageTree.Json.Reader
import PageTree.Markup.InlineStyle
import PageTree.Markup.Reader
import PageTree.Render.Page
import PageTree.Session.Network
import PageTree.Session.Schedule
import PageTree.State.Path

/-!
# Sessions

A session is a page that was loaded from its markup and is used without a browser: its elements,
its state, its clock, and a record of what the page did. Nodes are addressed by the ids that their
elements carry; of elements with one id the first one in the document at loading counts, also when
it is taken out later.

## Main definitions

* `Session`, `Session.load`
* `Session.element`: the element of a node
-/

namespace PageTree

/-- What can go wrong in a session. -/
inductive SessionFault where
  /-- The markup cannot be read. -/
  | markup (fault : MarkupFault)
  /-- The script with the initial state holds no object. -/
  | initialState
  /-- No element carries this id. -/
  | unknownNode (id : String)
  /-- Pages do not listen to this event. -/
  | unheard (event : String)
  /-- Nothing answers a request for this address. -/
  | unanswered (url : String)
  deriving DecidableEq, Repr

/-- The wording of a fault. -/
def SessionFault.message : SessionFault → String
  | .markup fault => "malformed markup: " ++ fault.message
  | .initialState => "invalid state bootstrap"
  | .unknownNode id => "no element with id \"" ++ id ++ "\""
  | .unheard event => "event type \"" ++ event ++ "\" is not delegated"
  | .unanswered url => "fetch " ++ url ++ " failed: no response registered"

/-- A signal that a page sent. -/
structure Signal where
  /-- The name. -/
  name : String
  /-- The node whose binding sent it. -/
  source : Option String
  deriving DecidableEq, Repr

/-- Keyframes that a page played. -/
structure Animation where
  /-- The node that moved. -/
  node : Option String
  /-- The keyframes. -/
  frames : List (OrderedMap Json)
  /-- How long it lasts, in milliseconds. -/
  duration : Nat
  /-- How long it waits, in milliseconds. -/
  delay : Nat
  /-- The easing. -/
  easing : String
  /-- How often it plays. -/
  iterations : Iterations
  /-- Which keyframe shows before and after. -/
  fill : FillMode

/-- A request to be sent, and the state key that takes the answer. -/
structure Errand where
  request : Request
  resultKey : Option String

/-- A page in use. -/
structure Session where
  /-- The elements. -/
  forest : Forest
  /-- The state. -/
  state : Json := .obj []
  /-- The elements of nodes. -/
  nodes : OrderedMap Nat := []
  /-- The page was mounted. -/
  mounted : Bool := false
  /-- The milliseconds since loading. -/
  clock : Nat := 0
  /-- What is still to happen to toasts. -/
  schedule : Schedule := []
  /-- The elements of all toasts so far, with their kinds. -/
  toasts : List (Nat × ToastVariant) := []
  /-- The signals so far. -/
  signals : List Signal := []
  /-- The keyframes played so far. -/
  animations : List Animation := []
  /-- Classes that effects put on elements and that go when their animation ends. -/
  animationClasses : List (Nat × String) := []
  /-- The element with the focus. -/
  focused : Option Nat := none
  /-- Elements that move once they come into view. -/
  awaited : List Nat := []
  /-- Elements whose motion waits for its state key to be false again. -/
  spent : List Nat := []
  /-- Requests that the current call still has to send. -/
  errands : List Errand := []

namespace Session

/-! ## Loading -/

/-- The text without a pattern at its start. -/
def dropStart (pattern text : List Char) : List Char :=
  if pattern.isPrefixOf text then text.drop pattern.length else text

/-- The value that the script with the initial state assigns. -/
def assignedText (script : String) : String :=
  let body := Text.trimBlank script.toList
  let body := Text.trimStart Text.isBlank (dropStart "window.__irState".toList body)
  let body := Text.trimBlank (dropStart ['='] body)
  String.ofList (if body.getLast? = some ';' then body.dropLast else body)

/-- The state that a page starts in: the object in its state script, or an empty one without such
a script. -/
def initialState (forest : Forest) : Except SessionFault Json :=
  match forest.findFirst? fun e =>
    e.tag == "script" && e.attributes.lookup "id" == some stateScriptId with
  | none => .ok (.obj [])
  | some script =>
    match (Json.parse? (assignedText (forest.textContent script))).bind Json.members? with
    | some members => .ok (.obj members)
    | none => .error .initialState

/-- The elements of nodes: for each id the first one in the document. -/
def nodeTable (forest : Forest) : OrderedMap Nat :=
  forest.preorder.foldl (fun table i =>
    match forest.attribute? i idAttribute with
    | some id => OrderedMap.setNew id i table
    | none => table) []

/-- The session of a page that was just loaded. -/
def load (html : String) : Except SessionFault Session := do
  let forest ← (Forest.read html).mapError .markup
  let state ← initialState forest
  return { forest, state, nodes := nodeTable forest }

/-! ## Addressing -/

variable (s : Session)

/-- The element of a node. -/
def node? (id : String) : Option Nat := s.nodes.lookup id

/-- The element of a node, or the fault that there is none. -/
def element (id : String) : Except SessionFault Nat :=
  match s.node? id with
  | some i => .ok i
  | none => .error (.unknownNode id)

/-- A text that says something. -/
def stated (text : Option String) : Option String :=
  text.filter (!·.isEmpty)

/-- The element of a node that an effect may leave out. -/
def target? (id : Option String) : Option Nat :=
  (stated id).bind s.node?

/-- The id of the node of an element. -/
def idOf? (i : Nat) : Option String := s.forest.attribute? i idAttribute

/-- The value of the state under a key. -/
def get? (key : String) : Option Json := s.state.valueAt key

/-- The session with its elements changed. -/
def mapForest (change : Forest → Forest) : Session :=
  { s with forest := change s.forest }

end Session

end PageTree
